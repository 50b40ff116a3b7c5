import YkServer.Core.Chat
import YkServer.Lib.Interleaving
import YkServer.Lib.Table

/-!
# Names in the Chat

A session that was told that its login is good holds its name. The table has the sessions that
hold a name, under that name, but entries come and go by name, whoever takes them away.

All is well as long as no two sessions carry the same name in `$id`, and they come to carry it
in two ways: by a login, which looks up the empty name and so never finds the name
taken, and by the handshake, where the client can send any `$id`.

## Main definitions

* `ChatMessage.Grants`: The response to a good login.
* `ChatWorld.Holds`: An open session that was told so.
* `ChatWorld.Untaken`: Nobody takes a name that somebody carries.
* `ChatWorld.Integrity`: What holds as long as nobody does.

## Theorems

* `integrity_move`: A session goes on.
* `integrity_put`, `integrity_add`, `integrity_del`: With its name, with a new one, and without.
* `integrity_deliver`: A session is told something.
* `step_integrity`: A step.
* `names_kept`: Runs in which no name is taken.
-/

namespace YkServer

open Lib

/-- The response to a good login. -/
def ChatMessage.Grants (m : ChatMessage) : Prop :=
  m.get (ascii "type") = ascii "login_response" ∧ m.get (ascii "result") = ascii "200"

instance (m : ChatMessage) : Decidable m.Grants := inferInstanceAs (Decidable (_ ∧ _))

namespace ChatPos

/-- A session that is not about to close. One that ended with an exception never is. -/
def isOpen : ChatPos → Bool
  | .receiving | .checking _ _ | .entering _ _ | .answering _ | .erasing | .thrown => true
  | .notifying _ _ (.answer _) | .telling _ _ (.answer _) => true
  | _ => false

/-- A session that has still to take its name from the table. -/
def unfinished : ChatPos → Bool
  | .leaving _ => true
  | pos => pos.isOpen

/-- The response a session is about to get. -/
def offer : ChatPos → Option ChatMessage
  | .answering rsp | .notifying _ _ (.answer rsp) | .telling _ _ (.answer rsp) => some rsp
  | _ => none

/-- The name a session is about to have. -/
def wants : ChatPos → Option (List UInt8)
  | .checking name _ | .entering name _ => some name
  | _ => none

/-- What a session is about to tell the others. -/
def tells : ChatPos → Option ChatMessage
  | .notifying nty _ _ | .telling nty _ _ => some nty
  | _ => none

/-- A session that is about to take its name from the table because of a bad message. -/
def erases : ChatPos → Bool
  | .erasing => true
  | _ => false

theorem unfinished_of_isOpen (pos : ChatPos) (h : pos.isOpen = true) : pos.unfinished = true := by
  cases pos with
  | leaving time => rfl
  | _ => exact h

end ChatPos

namespace ChatSession

/-- A session with a name that has still to take it from the table. -/
def Carries (s : ChatSession) (name : List UInt8) : Prop :=
  s.pos.unfinished = true ∧ s.id = name

/-- A session that was told that its login is good, or is about to be. -/
def Granted (s : ChatSession) : Prop :=
  (∃ m ∈ s.inbox, m.Grants) ∨ ∃ rsp, s.pos.offer = some rsp ∧ rsp.Grants

/-- What holds of a session by itself: it wants a name only when it has none, tells the others
    nothing that looks like a response, and takes a name from the table only if it has one. -/
structure Sound (s : ChatSession) : Prop where
  wants : ∀ name, s.pos.wants = some name → s.id = [] ∧ name ≠ []
  tells : ∀ nty, s.pos.tells = some nty → ¬nty.Grants
  erases : s.pos.erases = true → s.id ≠ []

/-- A place where there is nothing to want, to tell or to erase. -/
theorem sound_plain (s : ChatSession) (hwants : s.pos.wants = none) (htells : s.pos.tells = none)
    (herases : s.pos.erases = false) : s.Sound := by
  refine ⟨?_, ?_, fun herase => absurd herase (by rw [herases]; exact Bool.false_ne_true)⟩
  · intro name hname
    rw [hwants] at hname
    cases hname
  · intro nty hnty
    rw [htells] at hnty
    cases hnty

theorem sound_wants (s : ChatSession) (name : List UInt8) (hwants : s.pos.wants = some name)
    (htells : s.pos.tells = none) (herases : s.pos.erases = false) (hid : s.id = [])
    (hname : name ≠ []) : s.Sound := by
  refine ⟨?_, ?_, fun herase => absurd herase (by rw [herases]; exact Bool.false_ne_true)⟩
  · intro name' hname'
    rw [hwants, Option.some.injEq] at hname'
    rw [← hname']
    exact ⟨hid, hname⟩
  · intro nty hnty
    rw [htells] at hnty
    cases hnty

theorem sound_tells (s : ChatSession) (nty : ChatMessage) (hwants : s.pos.wants = none)
    (htells : s.pos.tells = some nty) (herases : s.pos.erases = false) (hnty : ¬nty.Grants) :
    s.Sound := by
  refine ⟨?_, ?_, fun herase => absurd herase (by rw [herases]; exact Bool.false_ne_true)⟩
  · intro name hname
    rw [hwants] at hname
    cases hname
  · intro nty' hnty'
    rw [htells, Option.some.injEq] at hnty'
    rw [← hnty']
    exact hnty

end ChatSession

namespace ChatWorld

/-- An open session that was told that its login is good. -/
def Holds (w : ChatWorld) (i : Nat) (name : List UInt8) : Prop :=
  ∃ s, w.sessions[i]? = some s ∧ s.pos.isOpen = true ∧ s.id = name ∧ ∃ m ∈ s.inbox, m.Grants

/-- Nobody takes a name, by a handshake or a login, that another session carries. -/
def Untaken (w : ChatWorld) : Action → Prop
  | .connect id => id ≠ [] → ∀ t ∈ w.sessions, ¬t.Carries id
  | .go i _ => ∀ s name time, w.sessions[i]? = some s → s.pos = .entering name time →
      ∀ j t, w.sessions[j]? = some t → j ≠ i → ¬t.Carries name
  | _ => True

/-- What holds as long as nobody takes a name that another session carries. -/
structure Integrity (w : ChatWorld) : Prop where
  sound : ∀ s ∈ w.sessions, s.Sound
  /-- No two sessions carry one name. -/
  apart : ∀ (i j : Nat) (s t : ChatSession) (name : List UInt8), w.sessions[i]? = some s →
    w.sessions[j]? = some t → s.Carries name → t.Carries name → name ≠ [] → i = j
  /-- The table has sessions under the name they carry. -/
  entries : ∀ name i, w.table.lookup name = some i →
    name ≠ [] ∧ ∃ s, w.sessions[i]? = some s ∧ s.Carries name
  /-- The table has the open sessions whose login is good. -/
  granted : ∀ (i : Nat) (s : ChatSession), w.sessions[i]? = some s → s.pos.isOpen = true →
    s.Granted → w.table.lookup s.id = some i
  /-- Sessions take away their own entries. -/
  removals : ∀ p ∈ w.removals, p.1 = p.2

theorem integrity_new : Integrity new := by
  refine ⟨?_, ?_, ?_, ?_, ?_⟩
  · intro s hs
    cases hs
  · intro i j s t name hs
    cases hs
  · intro name i hi
    cases hi
  · intro i s hs
    cases hs
  · intro p hp
    cases hp

/-! ## What a session does -/

theorem get_put (w : ChatWorld) (i : Nat) (s s' : ChatSession) (hi : w.sessions[i]? = some s)
    (j : Nat) (t : ChatSession) (ht : (w.put i s').sessions[j]? = some t) :
    j = i ∧ t = s' ∨ j ≠ i ∧ w.sessions[j]? = some t := by
  simp only [put] at ht
  exact update_cases w.sessions i s s' hi j t ht

/-- A session goes on and changes the table on the way. It comes to carry a name only if nobody
    else does, and the entries and the rights of the others stay. -/
theorem integrity_move (w q : ChatWorld) (h : Integrity w) (hsessions : q.sessions = w.sessions)
    (i : Nat) (s s' : ChatSession) (hi : w.sessions[i]? = some s) (hsound : s'.Sound)
    (hapart : ∀ name, name ≠ [] → s'.Carries name →
      ∀ (j : Nat) (t : ChatSession), w.sessions[j]? = some t → j ≠ i → ¬t.Carries name)
    (hentries : ∀ name j, q.table.lookup name = some j →
      j = i ∧ name ≠ [] ∧ s'.Carries name ∨ j ≠ i ∧ w.table.lookup name = some j)
    (hgranted : s'.pos.isOpen = true → s'.Granted → q.table.lookup s'.id = some i)
    (hothers : ∀ (j : Nat) (t : ChatSession), w.sessions[j]? = some t → j ≠ i →
      t.pos.isOpen = true → w.table.lookup t.id = some j → q.table.lookup t.id = some j)
    (hremovals : ∀ p ∈ q.removals, p.1 = p.2) : Integrity (q.put i s') := by
  have hj : q.sessions[i]? = some s := by
    rw [hsessions]
    exact hi
  have hself : (q.put i s').sessions[i]? = some s' := by
    simp only [put]
    rw [getElem?_update q.sessions i s s' hj, if_pos rfl]
  have hother : ∀ (j : Nat) (t : ChatSession), j ≠ i → w.sessions[j]? = some t →
      (q.put i s').sessions[j]? = some t := by
    intro j t hne ht
    simp only [put]
    rw [getElem?_update q.sessions i s s' hj, if_neg hne, hsessions]
    exact ht
  refine ⟨?_, ?_, ?_, ?_, hremovals⟩
  · intro t ht
    rcases List.mem_or_eq_of_mem_set ht with hold | rfl
    · rw [hsessions] at hold
      exact h.sound t hold
    · exact hsound
  · intro j k t u name ht hu hcarries hcarries' hne
    rcases get_put q i s s' hj j t ht with ⟨rfl, rfl⟩ | ⟨hji, hold⟩
    · rcases get_put q j s _ hj k u hu with ⟨rfl, -⟩ | ⟨hkj, hold'⟩
      · rfl
      · rw [hsessions] at hold'
        exact absurd hcarries' (hapart name hne hcarries k u hold' hkj)
    · rw [hsessions] at hold
      rcases get_put q i s s' hj k u hu with ⟨rfl, rfl⟩ | ⟨-, hold'⟩
      · exact absurd hcarries (hapart name hne hcarries' j t hold hji)
      · rw [hsessions] at hold'
        exact h.apart j k t u name hold hold' hcarries hcarries' hne
  · intro name j hentry
    rcases hentries name j hentry with ⟨rfl, hne, hcarries⟩ | ⟨hji, hold⟩
    · exact ⟨hne, s', hself, hcarries⟩
    · rcases h.entries name j hold with ⟨hne, t, ht, hcarries⟩
      exact ⟨hne, t, hother j t hji ht, hcarries⟩
  · intro j t ht hopen ht'
    rcases get_put q i s s' hj j t ht with ⟨rfl, rfl⟩ | ⟨hji, hold⟩
    · exact hgranted hopen ht'
    · rw [hsessions] at hold
      exact hothers j t hold hji hopen (h.granted j t hold hopen ht')

/-- A session goes on with the name it has, and the table stays. -/
theorem integrity_put (w : ChatWorld) (h : Integrity w) (i : Nat) (s s' : ChatSession)
    (hi : w.sessions[i]? = some s) (hsound : s'.Sound) (hid : s'.id = s.id)
    (hleaves : s'.pos.unfinished = true → s.pos.unfinished = true)
    (hkeeps : s.pos.unfinished = true → s.id ≠ [] → s'.pos.unfinished = true)
    (hgranted : s'.pos.isOpen = true → s'.Granted → s.pos.isOpen = true ∧ s.Granted) :
    Integrity (w.put i s') := by
  refine integrity_move w w h rfl i s s' hi hsound ?_ ?_ ?_ ?_ h.removals
  · intro name hne hcarries j t ht hji hcarries'
    have hbefore : s.Carries name := ⟨hleaves hcarries.1, hid.symm.trans hcarries.2⟩
    exact hji (h.apart j i t s name ht hi hcarries' hbefore hne)
  · intro name j hentry
    by_cases hji : j = i
    · rcases h.entries name j hentry with ⟨hne, t, ht, hcarries⟩
      rw [hji, hi, Option.some.injEq] at ht
      rw [← ht] at hcarries
      refine .inl ⟨hji, hne, hkeeps hcarries.1 ?_, hid.trans hcarries.2⟩
      rw [hcarries.2]
      exact hne
    · exact .inr ⟨hji, hentry⟩
  · intro hopen hs'
    rw [hid]
    exact h.granted i s hi (hgranted hopen hs').1 (hgranted hopen hs').2
  · intro j t _ _ _ hentry
    exact hentry

/-- A session goes on and the response it is about to get, if any, stays the same. -/
theorem integrity_goto (w : ChatWorld) (h : Integrity w) (i : Nat) (s : ChatSession) (pos : ChatPos)
    (hi : w.sessions[i]? = some s) (hsound : ChatSession.Sound { s with pos := pos })
    (hunfinished : pos.unfinished = s.pos.unfinished) (hopen : pos.isOpen = s.pos.isOpen)
    (hoffer : pos.offer = s.pos.offer) : Integrity (w.put i { s with pos := pos }) := by
  refine integrity_put w h i s _ hi hsound rfl ?_ ?_ ?_
  · intro hs'
    exact hunfinished.symm.trans hs'
  · intro hs _
    exact hunfinished.trans hs
  · intro hs' hgranted
    refine ⟨hopen.symm.trans hs', ?_⟩
    simp only [ChatSession.Granted, hoffer] at hgranted
    exact hgranted

/-- A login. -/
theorem integrity_add (w : ChatWorld) (h : Integrity w) (i : Nat) (s s' : ChatSession)
    (hi : w.sessions[i]? = some s) (hsound : s'.Sound) (hid : s.id = []) (hne : s'.id ≠ [])
    (hunfinished : s'.pos.unfinished = true)
    (huntaken : ∀ (j : Nat) (t : ChatSession), w.sessions[j]? = some t → j ≠ i →
      ¬t.Carries s'.id) : Integrity ((w.sessionAdd s'.id i).put i s') := by
  refine integrity_move w (w.sessionAdd s'.id i) h rfl i s s' hi hsound ?_ ?_ ?_ ?_ h.removals
  · intro name _ hcarries
    rw [← hcarries.2]
    exact huntaken
  · intro name j hentry
    simp only [sessionAdd] at hentry
    by_cases hname : name = s'.id
    · rw [hname, Finmap.lookup_insert, Option.some.injEq] at hentry
      refine .inl ⟨hentry.symm, ?_, hunfinished, hname.symm⟩
      rw [hname]
      exact hne
    · rw [Finmap.lookup_insert_of_ne _ hname] at hentry
      -- The session had no name, so it had no entry.
      refine .inr ⟨?_, hentry⟩
      rintro rfl
      rcases h.entries name j hentry with ⟨hnonempty, t, ht, hcarries⟩
      rw [hi, Option.some.injEq] at ht
      rw [← ht] at hcarries
      exact hnonempty (hcarries.2.symm.trans hid)
  · intro _ _
    exact Finmap.lookup_insert _
  · intro j t ht hji hopen hentry
    have hother : t.id ≠ s'.id := by
      intro heq
      exact huntaken j t ht hji ⟨t.pos.unfinished_of_isOpen hopen, heq⟩
    simp only [sessionAdd]
    rw [Finmap.lookup_insert_of_ne _ hother]
    exact hentry

/-- A session takes its name from the table, and is not open any more. -/
theorem integrity_del (w : ChatWorld) (h : Integrity w) (i : Nat) (s s' : ChatSession)
    (hi : w.sessions[i]? = some s) (hsound : s'.Sound) (hid : s'.id = s.id) (hne : s.id ≠ [])
    (hunfinished : s.pos.unfinished = true) (hclosed : s'.pos.isOpen = false) :
    Integrity ((w.sessionDel i s.id).put i s') := by
  -- What is under the name is the entry of the session.
  have hown : ∀ j, w.table.lookup s.id = some j → j = i := by
    intro j hentry
    rcases h.entries s.id j hentry with ⟨-, t, ht, hcarries⟩
    exact h.apart j i t s s.id ht hi hcarries ⟨hunfinished, rfl⟩ hne
  refine integrity_move w (w.sessionDel i s.id) h rfl i s s' hi hsound ?_ ?_ ?_ ?_ ?_
  · intro name hname hcarries j t ht hji hcarries'
    have hbefore : s.Carries name := ⟨hunfinished, hid.symm.trans hcarries.2⟩
    exact hji (h.apart j i t s name ht hi hcarries' hbefore hname)
  · intro name j hentry
    simp only [sessionDel] at hentry
    by_cases hname : name = s.id
    · rw [hname, Finmap.lookup_erase] at hentry
      cases hentry
    · rw [Finmap.lookup_erase_ne hname] at hentry
      refine .inr ⟨?_, hentry⟩
      rintro rfl
      rcases h.entries name j hentry with ⟨-, t, ht, hcarries⟩
      rw [hi, Option.some.injEq] at ht
      rw [← ht] at hcarries
      exact hname hcarries.2.symm
  · intro hopen
    rw [hclosed] at hopen
    cases hopen
  · intro j t _ hji _ hentry
    have hother : t.id ≠ s.id := by
      intro heq
      rw [heq] at hentry
      exact hji (hown j hentry)
    simp only [sessionDel]
    rw [Finmap.lookup_erase_ne hother]
    exact hentry
  · intro p hp
    simp only [sessionDel] at hp
    split at hp
    · rename_i j hj
      rcases List.mem_append.1 hp with hold | hnew
      · exact h.removals p hold
      · rw [List.mem_singleton.1 hnew]
        exact (hown j hj).symm
    · exact h.removals p hp

/-! ## Messages -/

theorem deliver_eq_put (w : ChatWorld) (j : Nat) (s : ChatSession) (m : ChatMessage)
    (hj : w.sessions[j]? = some s) :
    w.deliver true j m = w.put j { s with inbox := s.inbox ++ [m] } := by
  have hmodify : w.sessions.modify j (fun s => { s with inbox := s.inbox ++ [m] }) =
      w.sessions.set j { s with inbox := s.inbox ++ [m] } := by
    rw [List.modify_eq_set_getElem?, hj]
    rfl
  rw [deliver, if_pos rfl, hmodify, put]

/-- A session is told something that is not the response to its login. -/
theorem integrity_deliver (w : ChatWorld) (h : Integrity w) (ok : Bool) (j : Nat) (m : ChatMessage)
    (hm : ¬m.Grants) : Integrity (w.deliver ok j m) := by
  cases ok with
  | false => exact h
  | true =>
      rcases hj : w.sessions[j]? with _ | s
      · have hnone : w.sessions.modify j (fun s => { s with inbox := s.inbox ++ [m] }) =
            w.sessions := by
          rw [List.modify_eq_set_getElem?, hj]
          rfl
        rw [deliver, if_pos rfl, hnone]
        exact h
      · rw [deliver_eq_put w j s m hj]
        have hsound := h.sound s (List.mem_of_getElem? hj)
        refine integrity_put w h j s _ hj ⟨hsound.wants, hsound.tells, hsound.erases⟩ rfl id
          (fun hs _ => hs) ?_
        rintro hopen (⟨m', hm', hgrants⟩ | hoffer)
        · rcases List.mem_append.1 hm' with hold | hnew
          · exact ⟨hopen, .inl ⟨m', hold, hgrants⟩⟩
          · rw [List.mem_singleton.1 hnew] at hgrants
            exact absurd hgrants hm
        · exact ⟨hopen, .inr hoffer⟩

end ChatWorld

namespace ChatMessage

theorem get_set_self (m : ChatMessage) (name val : List UInt8) :
    (m.set name val).get name = val := by
  rw [get, set, Finmap.lookup_insert, Option.getD_some]

theorem get_set_of_ne (m : ChatMessage) (name name' val : List UInt8) (h : name' ≠ name) :
    (m.set name val).get name' = m.get name' := by
  rw [get, set, Finmap.lookup_insert_of_ne _ h, get]

theorem get_type_notice (type : String) (time name : List UInt8) :
    (notice type time name).get (ascii "type") = ascii type := by
  rw [notice, get_set_of_ne _ _ _ _ (by decide), get_set_of_ne _ _ _ _ (by decide), get_set_self]

/-- A notice of another type is not the response to a login. -/
theorem not_grants_notice (type : String) (h : ascii type ≠ ascii "login_response")
    (time name : List UInt8) : ¬(notice type time name).Grants := by
  rintro ⟨htype, -⟩
  rw [get_type_notice] at htype
  exact h htype

end ChatMessage

namespace ChatSession

/-- Where a session may go with a message: it goes on or leaves, and is not told yet that its
    login is good. -/
structure Proceeds (s : ChatSession) (pos : ChatPos) : Prop where
  sound : ChatSession.Sound { s with pos := pos }
  unfinished : pos.unfinished = true
  offer : ∀ rsp, pos.offer = some rsp → ¬rsp.Grants

/-- A place where no response is due. -/
theorem proceeds_silent (s : ChatSession) (pos : ChatPos)
    (hsound : ChatSession.Sound { s with pos := pos }) (hunfinished : pos.unfinished = true)
    (hoffer : pos.offer = none) : s.Proceeds pos := by
  refine ⟨hsound, hunfinished, ?_⟩
  intro rsp hrsp
  rw [hoffer] at hrsp
  cases hrsp

theorem proceeds_answering (s : ChatSession) (rsp : ChatMessage) (h : ¬rsp.Grants) :
    s.Proceeds (.answering rsp) := by
  refine ⟨sound_plain _ rfl rfl rfl, rfl, ?_⟩
  intro rsp' hrsp
  cases hrsp
  exact h

theorem handle_proceeds (s : ChatSession) (time : List UInt8) (m : Received) :
    s.Proceeds (s.handle time m) := by
  cases m with
  | nothing => exact proceeds_silent s _ (sound_plain _ rfl rfl rfl) rfl rfl
  | malformed =>
      rw [handle]
      split
      · exact proceeds_silent s _ (sound_plain _ rfl rfl rfl) rfl rfl
      · rename_i hid
        refine proceeds_silent s _ ⟨?_, ?_, fun _ => hid⟩ rfl rfl
        · intro name hname
          cases hname
        · intro nty hnty
          cases hnty
  | throws => exact proceeds_silent s _ (sound_plain _ rfl rfl rfl) rfl rfl
  | message msg =>
      rw [handle]
      split
      · -- A login.
        split
        · exact proceeds_answering s _ (by decide)
        · rename_i hname
          split
          · exact proceeds_answering s _ (by decide)
          · rename_i hid
            exact proceeds_silent s _ (sound_wants _ _ rfl rfl rfl (not_not.1 hid) hname) rfl rfl
      · split
        · -- Something to say.
          split
          · exact proceeds_answering s _ (by decide)
          · split
            · exact proceeds_answering s _ (by decide)
            · refine ⟨sound_tells _ _ rfl rfl rfl ?_, rfl, ?_⟩
              · rintro ⟨htype, -⟩
                rw [ChatMessage.get_set_of_ne _ _ _ _ (by decide),
                  ChatMessage.get_type_notice] at htype
                revert htype
                decide
              · intro rsp hrsp
                cases hrsp
                decide
        · exact proceeds_silent s _ (sound_plain _ rfl rfl rfl) rfl rfl

end ChatSession

namespace ChatWorld

/-! ## Steps -/

/-- A handshake. -/
theorem integrity_connect (w : ChatWorld) (h : Integrity w) (id : List UInt8)
    (huntaken : id ≠ [] → ∀ t ∈ w.sessions, ¬t.Carries id) :
    Integrity { w with sessions := w.sessions ++ [⟨id, .receiving, []⟩] } := by
  refine ⟨?_, ?_, ?_, ?_, h.removals⟩
  · intro s hs
    rcases List.mem_append.1 hs with hold | hnew
    · exact h.sound s hold
    · rw [List.mem_singleton.1 hnew]
      exact ChatSession.sound_plain _ rfl rfl rfl
  · intro i j s t name hs ht hcarries hcarries' hne
    rcases getElem?_concat_eq_some w.sessions _ _ i hs with hi | ⟨hi, rfl⟩
    · rcases getElem?_concat_eq_some w.sessions _ _ j ht with hj | ⟨-, rfl⟩
      · exact h.apart i j s t name hi hj hcarries hcarries' hne
      · rw [← hcarries'.2] at hcarries hne
        exact absurd hcarries (huntaken hne s (List.mem_of_getElem? hi))
    · rcases getElem?_concat_eq_some w.sessions _ _ j ht with hj | ⟨hj, -⟩
      · rw [← hcarries.2] at hcarries' hne
        exact absurd hcarries' (huntaken hne t (List.mem_of_getElem? hj))
      · rw [hi, hj]
  · intro name i hentry
    rcases h.entries name i hentry with ⟨hne, s, hs, hcarries⟩
    exact ⟨hne, s, getElem?_concat_of_some w.sessions _ _ i hs, hcarries⟩
  · intro i s hs hopen hgranted
    rcases getElem?_concat_eq_some w.sessions _ _ i hs with hi | ⟨-, rfl⟩
    · exact h.granted i s hi hopen hgranted
    · -- It has not been told anything.
      rcases hgranted with ⟨m, hm, -⟩ | ⟨rsp, hrsp, -⟩
      · cases hm
      · cases hrsp

theorem goOn_integrity (w w' : ChatWorld) (h : Integrity w) (i : Nat) (s : ChatSession)
    (time : List UInt8) (hi : w.sessions[i]? = some s)
    (huntaken : ∀ name time, s.pos = .entering name time →
      ∀ (j : Nat) (t : ChatSession), w.sessions[j]? = some t → j ≠ i → ¬t.Carries name)
    (hstep : w.goOn i s time = some w') : Integrity w' := by
  have hsound := h.sound s (List.mem_of_getElem? hi)
  rcases s with ⟨id, pos, inbox⟩
  cases pos with
  | checking name time =>
      rcases hsound.wants name rfl with ⟨hid, hname⟩
      simp only [goOn] at hstep
      split at hstep
      · cases hstep
        refine integrity_put w h i _ _ hi (ChatSession.sound_plain _ rfl rfl rfl) rfl
          (fun _ => rfl) (fun _ _ => rfl) ?_
        rintro - (hinbox | ⟨rsp, hrsp, hgrants⟩)
        · exact ⟨rfl, .inl hinbox⟩
        · cases hrsp
          exact absurd hgrants (by decide)
      · cases hstep
        refine integrity_put w h i _ _ hi (ChatSession.sound_wants _ name rfl rfl rfl hid hname)
          rfl (fun _ => rfl) (fun _ _ => rfl) ?_
        rintro - (hinbox | ⟨rsp, hrsp, -⟩)
        · exact ⟨rfl, .inl hinbox⟩
        · cases hrsp
  | entering name time =>
      rcases hsound.wants name rfl with ⟨hid, hname⟩
      cases hstep
      refine integrity_add w h i _ _ hi (ChatSession.sound_tells _ _ rfl rfl rfl ?_) hid hname rfl
        (huntaken name time rfl)
      exact ChatMessage.not_grants_notice "user_enter" (by decide) time name
  | erasing =>
      cases hstep
      exact integrity_del w h i _ _ hi (ChatSession.sound_plain _ rfl rfl rfl) rfl
        (hsound.erases rfl) rfl rfl
  | leaving time =>
      simp only [goOn] at hstep
      split at hstep
      · rename_i hid
        cases hstep
        refine integrity_put w h i _ _ hi (ChatSession.sound_plain _ rfl rfl rfl) rfl ?_
          (fun _ hne => absurd hid hne) ?_
        · intro hunfinished
          cases hunfinished
        · intro hopen
          cases hopen
      · rename_i hid
        cases hstep
        refine integrity_del w h i _ _ hi (ChatSession.sound_tells _ _ rfl rfl rfl ?_) rfl hid rfl
          rfl
        exact ChatMessage.not_grants_notice "user_leave" (by decide) time id
  | closing =>
      cases hstep
      refine integrity_put w h i _ _ hi (ChatSession.sound_plain _ rfl rfl rfl) rfl ?_ ?_ ?_
      · intro hunfinished
        cases hunfinished
      · intro hunfinished
        cases hunfinished
      · intro hopen
        cases hopen
  | receiving | notifying | telling | answering | closed | thrown => cases hstep

theorem put_put (w : ChatWorld) (i : Nat) (s s' : ChatSession) :
    (w.put i s).put i s' = w.put i s' := by
  simp only [put, List.set_set]

/-- A session gets its response, or leaves. -/
theorem integrity_answer (w : ChatWorld) (h : Integrity w) (i : Nat) (s : ChatSession)
    (rsp : ChatMessage) (time : List UInt8) (ok : Bool) (hi : w.sessions[i]? = some s)
    (hpos : s.pos = .answering rsp) :
    Integrity (deliver (w.put i { s with pos := if ok then .receiving else .leaving time }) ok i
      rsp) := by
  have hunfinished : s.pos.unfinished = true := by
    rw [hpos]
    rfl
  cases ok with
  | false =>
      refine integrity_put w h i s _ hi (ChatSession.sound_plain _ rfl rfl rfl) rfl
        (fun _ => hunfinished) (fun _ _ => rfl) ?_
      intro hopen
      cases hopen
  | true =>
      have hnow : (w.put i { s with pos := .receiving }).sessions[i]? =
          some { s with pos := .receiving } := by
        simp only [put]
        rw [getElem?_update w.sessions i s _ hi, if_pos rfl]
      rw [if_pos rfl, deliver_eq_put _ i _ rsp hnow, put_put]
      refine integrity_put w h i s _ hi (ChatSession.sound_plain _ rfl rfl rfl) rfl
        (fun _ => hunfinished) (fun _ _ => rfl) ?_
      rw [hpos]
      rintro - (⟨m, hm, hgrants⟩ | ⟨rsp', hrsp', -⟩)
      · refine ⟨rfl, ?_⟩
        rcases List.mem_append.1 hm with hold | hnew
        · exact .inl ⟨m, hold, hgrants⟩
        · rw [List.mem_singleton.1 hnew] at hgrants
          refine .inr ⟨rsp, ?_, hgrants⟩
          rw [hpos]
          rfl
      · cases hrsp'

theorem step_integrity (w w' : ChatWorld) (a : Action) (h : Integrity w) (huntaken : w.Untaken a)
    (hstep : step a w = some w') : Integrity w' := by
  cases a with
  | connect id =>
      cases hstep
      exact integrity_connect w h id huntaken
  | receive i m time =>
      simp only [step] at hstep
      split at hstep
      · rename_i s hi
        split at hstep
        · rename_i hpos
          cases hstep
          have hproceeds := s.handle_proceeds time m
          refine integrity_put w h i s _ hi hproceeds.sound rfl ?_ ?_ ?_
          · intro _
            rw [hpos]
            rfl
          · intro _ _
            exact hproceeds.unfinished
          · rintro - (hinbox | ⟨rsp, hrsp, hgrants⟩)
            · rw [hpos]
              exact ⟨rfl, .inl hinbox⟩
            · exact absurd hgrants (hproceeds.offer rsp hrsp)
        · cases hstep
      · cases hstep
  | go i time =>
      rcases Option.bind_eq_some_iff.1 hstep with ⟨s, hi, hgo⟩
      exact goOn_integrity w w' h i s time hi (fun name time => huntaken s name time hi) hgo
  | copy i order =>
      simp only [step] at hstep
      split at hstep
      · rename_i s hi
        split at hstep
        · rename_i nty session next hpos
          split at hstep
          · cases hstep
            have htells := (h.sound s (List.mem_of_getElem? hi)).tells nty (by rw [hpos]; rfl)
            have hsound : ChatSession.Sound { s with
                pos := .telling nty (order.filter (fun j => session ≠ some j)) next } :=
              ChatSession.sound_tells _ nty rfl rfl rfl htells
            refine integrity_goto w h i s _ hi hsound ?_ ?_ ?_
            all_goals
              rw [hpos]
              cases next
            all_goals rfl
          · cases hstep
        · cases hstep
      · cases hstep
  | send i ok time =>
      simp only [step] at hstep
      split at hstep
      · rename_i s hi
        have hsound := h.sound s (List.mem_of_getElem? hi)
        split at hstep
        · rename_i nty j sessions next hpos
          cases hstep
          have hnty := hsound.tells nty (by rw [hpos]; rfl)
          refine integrity_deliver _ ?_ ok j nty hnty
          refine integrity_goto w h i s _ hi (ChatSession.sound_tells _ nty rfl rfl rfl hnty)
            ?_ ?_ ?_
          all_goals
            rw [hpos]
            cases next
          all_goals rfl
        · rename_i nty next hpos
          cases hstep
          have hplain : ChatSession.Sound { s with pos := next.pos } := by
            cases next
            all_goals exact ChatSession.sound_plain _ rfl rfl rfl
          refine integrity_goto w h i s _ hi hplain ?_ ?_ ?_
          all_goals
            rw [hpos]
            cases next
          all_goals rfl
        · rename_i rsp hpos
          cases hstep
          exact integrity_answer w h i s rsp time ok hi hpos
        · cases hstep
      · cases hstep

/-! ## Runs -/

/-- In a run in which nobody takes a name that another session carries, every name is held by
    one session at most, the table has that session under it, and no session removes the entry
    of another one. -/
theorem names_kept (as : List Action) (w : ChatWorld) (hrun : run step as new = some w)
    (huntaken : Along step Untaken as new) :
    (∀ i j name, w.Holds i name → w.Holds j name → i = j) ∧
    (∀ i name, w.Holds i name → w.table.lookup name = some i) ∧
    ∀ p ∈ w.removals, p.1 = p.2 := by
  have h : Integrity w :=
    run_inv Integrity (fun w a w' h huntaken hstep => step_integrity w w' a h huntaken hstep) as
      new w integrity_new huntaken hrun
  have hentry : ∀ i name, w.Holds i name → w.table.lookup name = some i := by
    rintro i name ⟨s, hi, hopen, rfl, hinbox⟩
    exact h.granted i s hi hopen (.inl hinbox)
  refine ⟨?_, hentry, h.removals⟩
  intro i j name hi hj
  have heq := (hentry i name hi).symm.trans (hentry j name hj)
  exact Option.some.inj heq

/-- The login of a session, from the message to the response. -/
def login (i : Nat) (name : List UInt8) (order : List Nat) : List Action :=
  [Action.receive i (.message (ChatMessage.set (ChatMessage.set ∅ (ascii "type")
      (ascii "login_request")) (ascii "name") name)) [], .go i [], .go i [], .copy i order] ++
    order.map (fun _ => Action.send i true []) ++ [Action.send i true []]

theorem names_kept_login : ∃ w, run step (.connect [] :: login 0 (ascii "a") [0]) new = some w ∧
    w.Holds 0 (ascii "a") ∧ w.table.lookup (ascii "a") = some 0 := by
  have huntaken : Along step Untaken (.connect [] :: login 0 (ascii "a") [0]) new := by
    -- There is no other session.
    have halone : ∀ (s t : ChatSession) (j : Nat), [s][j]? = some t → j = 0 := by
      intro s t j ht
      exact Nat.lt_one_iff.1 (List.getElem?_eq_some_iff.1 ht).1
    refine ⟨fun hne => absurd rfl hne, trivial, ?_, ?_, trivial, trivial, trivial, trivial⟩
    · intro s name time _ _ j t ht hj
      exact absurd (halone _ t j ht) hj
    · intro s name time _ _ j t ht hj
      exact absurd (halone _ t j ht) hj
  have hkept : ∀ w, run step (.connect [] :: login 0 (ascii "a") [0]) new = some w →
      w.Holds 0 (ascii "a") → w.table.lookup (ascii "a") = some 0 := by
    intro w hrun
    exact (names_kept _ w hrun huntaken).2.1 0 (ascii "a")
  have hholds : ∀ w, run step (.connect [] :: login 0 (ascii "a") [0]) new = some w →
      w.Holds 0 (ascii "a") := by
    intro w hrun
    cases hrun
    exact ⟨_, rfl, rfl, rfl, _, List.mem_cons_self, by decide⟩
  exact ⟨_, rfl, hholds _ rfl, hkept _ rfl (hholds _ rfl)⟩

/-- Two sessions log in with one name, and both are told that this is good. The table has only
    the second one, whose entry goes when the first one closes. A client that sends the name
    with the handshake takes the entry with it, too. -/
theorem names_taken :
    (∃ w, run step ([Action.connect [], .connect []] ++ login 0 (ascii "a") [0] ++
      login 1 (ascii "a") [1]) new = some w ∧ w.Holds 0 (ascii "a") ∧ w.Holds 1 (ascii "a") ∧
      w.table.lookup (ascii "a") = some 1) ∧
    (∃ w, run step ([Action.connect [], .connect []] ++ login 0 (ascii "a") [0] ++
      login 1 (ascii "a") [1] ++ [Action.receive 0 .nothing [], .go 0 []]) new = some w ∧
      w.Holds 1 (ascii "a") ∧ w.table.lookup (ascii "a") = none ∧ (0, 1) ∈ w.removals) ∧
    (∃ w, run step ([Action.connect [], .connect (ascii "a")] ++ login 0 (ascii "a") [0] ++
      [Action.receive 1 .nothing [], .go 1 []]) new = some w ∧
      w.Holds 0 (ascii "a") ∧ w.table.lookup (ascii "a") = none ∧ (1, 0) ∈ w.removals) := by
  refine ⟨⟨_, rfl, ?_, ?_, rfl⟩, ⟨_, rfl, ?_, rfl, List.mem_singleton.2 rfl⟩,
    ⟨_, rfl, ?_, rfl, List.mem_singleton.2 rfl⟩⟩
  all_goals exact ⟨_, rfl, rfl, rfl, _, List.mem_cons_self, by decide⟩

end ChatWorld

end YkServer
