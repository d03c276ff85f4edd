import Lindenmayer.Host
import Lindenmayer.Session

/-!
# Commands in a session

In a session each service of the host is a plain change of the session, so a command can be run part
by part: a part that succeeds hands on its result and the session it leaves behind.
-/

namespace Lindenmayer.Session

open Text Host

variable {α β : Type}

/-- A part that succeeds hands its result and the session on. -/
theorem run_bind_ok {session next : Session} {x : Attempt (StateM Session) α} {a : α}
    (h : x.run session = (.ok a, next)) (f : α → Attempt (StateM Session) β) :
    (x >>= f).run session = (f a).run next := by
  have hpart : x session = (.ok a, next) := h
  show ExceptT.bind x f session = f a next
  unfold ExceptT.bind ExceptT.mk ExceptT.bindCont
  simp only [bind, StateT.bind, hpart]

/-- If the whole succeeds, so does its first part. -/
theorem exists_of_run_bind {session after : Session} {x : Attempt (StateM Session) α}
    {f : α → Attempt (StateM Session) β} {b : β} (h : (x >>= f).run session = (.ok b, after)) :
    ∃ a next, (f a).run next = (.ok b, after) ∧ x.run session = (.ok a, next) := by
  cases hx : x.run session with
  | mk result next =>
    cases result with
    | ok a =>
      rw [run_bind_ok hx] at h
      exact ⟨a, next, h, rfl⟩
    | error e =>
      have hpart : x session = (.error e, next) := hx
      have hfailed : ExceptT.bind x f session = (.error e, next) := by
        unfold ExceptT.bind ExceptT.mk ExceptT.bindCont
        simp only [bind, StateT.bind, hpart]
        rfl
      exact absurd (congrArg Prod.fst (hfailed.symm.trans h)) nofun

/-- A requirement that is met changes nothing. -/
theorem run_require {condition : Bool} (h : condition = true) (fault : ConfigFault)
    (session : Session) :
    (require condition fault : Attempt (StateM Session) Unit).run session = (.ok (), session) := by
  rw [require, if_pos h]
  rfl

/-- Printing adds to the output. -/
@[simp]
theorem run_print (text : String) (session : Session) :
    (liftM (print text : StateM Session Unit) : Attempt (StateM Session) Unit).run session =
      (.ok (), { session with output := session.output ++ text }) := rfl

@[simp]
theorem run_printLine (line : String) (session : Session) :
    (liftM (printLine line : StateM Session Unit) : Attempt (StateM Session) Unit).run session =
      (.ok (), { session with output := session.output ++ (line ++ "\n") }) := rfl

/-- Warnings go to the diagnostics. -/
@[simp]
theorem run_warnLine (line : String) (session : Session) :
    (liftM (warnLine line : StateM Session Unit) : Attempt (StateM Session) Unit).run session =
      (.ok (), { session with diagnostics := session.diagnostics ++ (line ++ "\n") }) := rfl

/-- Notes change nothing but the diagnostics. -/
theorem forM_warnLine (entries : List JournalEntry) (session : Session) :
    ∃ diagnostics, (entries.forM fun entry => (warnLine entry.text : StateM Session Unit)) session =
      ((), { session with diagnostics }) := by
  induction entries generalizing session with
  | nil => exact ⟨_, rfl⟩
  | cons entry entries ih =>
    obtain ⟨diagnostics, hrest⟩ := ih
      { session with diagnostics := session.diagnostics ++ (entry.text ++ "\n") }
    exact ⟨diagnostics, hrest⟩

/-- Whether a journal is kept or not, a note changes the diagnostic output at most. -/
theorem run_note (entries : Unit → List JournalEntry) (session : Session) :
    ∃ diagnostics, (liftM (note entries : StateM Session Unit) :
      Attempt (StateM Session) Unit).run session = (.ok (), { session with diagnostics }) := by
  have hnote : ∃ diagnostics, (note entries : StateM Session Unit) session =
      ((), { session with diagnostics }) := by
    show ∃ diagnostics, (if session.keepsJournal then
      (entries ()).forM fun entry => (warnLine entry.text : StateM Session Unit)
      else pure ()) session = _
    split
    · exact forM_warnLine (entries ()) session
    · exact ⟨session.diagnostics, rfl⟩
  obtain ⟨diagnostics, hnote⟩ := hnote
  refine ⟨diagnostics, ?_⟩
  show (match (note entries : StateM Session Unit) session with
    | (a, after) => (Except.ok a, after)) = _
  rw [hnote]

/-! ## Lines of the input -/

section
variable {step : β → String → Attempt (StateM Session) (Option β)} {state : β} {line : List Char}
  {rest : List (List Char)} {session after : Session}

/-- A step without a state ends the loop. -/
theorem forLines_cons_of_none
    (h : (step state (String.ofList line)).run { session with input := rest.flatten } =
      (.ok none, after)) :
    (Session.forLines step state (line :: rest)).run session = (.ok (), after) :=
  run_bind_ok h _

/-- Otherwise the loop goes on with the next line. -/
theorem forLines_cons_of_some {next : β}
    (h : (step state (String.ofList line)).run { session with input := rest.flatten } =
      (.ok (some next), after)) :
    (Session.forLines step state (line :: rest)).run session =
      (Session.forLines step next rest).run after :=
  run_bind_ok h _

end

end Lindenmayer.Session
