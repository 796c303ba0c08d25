import SingleCycle.Proofs.Loading
import SingleCycle.Proofs.WatchedStep
import SingleCycle.Simulator.Call

/-!
# Tracing only watches

Whether steps are traced is decided twice: the core has a setting, and a call may overrule it. A
traced step keeps a log and prints what it did, but nothing that is computed reads the log. So of
two cores that differ in their setting and their log, and that are used alike, one cannot tell from
the answers which is traced, whatever is decided for each of them and at each call.
-/

namespace SingleCycle

namespace Core

/-- Two cores in the same state, the trace setting and the log apart. -/
structure Alike (c d : Core) : Prop where
  pc : d.pc = c.pc
  cycle : d.cycle = c.cycle
  halted : d.halted = c.halted
  registers : d.registers = c.registers
  memory : d.memory = c.memory
  program : d.program = c.program
  last : d.last = c.last

variable {c d : Core}

theorem alike_retraced (c : Core) (tracing : Bool) (log : Option (List LogEntry)) :
    c.Alike { c with tracing, log } := ⟨rfl, rfl, rfl, rfl, rfl, rfl, rfl⟩

namespace Alike

/-- A core that is like another one is that core with a setting and a log of its own. -/
theorem eq_retraced (h : c.Alike d) : d = { c with tracing := d.tracing, log := d.log } :=
  Core.ext h.pc h.cycle h.halted h.registers h.memory h.program h.last rfl rfl

theorem setTracing (h : c.Alike d) (first second : Bool) :
    { c with tracing := first }.Alike { d with tracing := second } :=
  ⟨h.pc, h.cycle, h.halted, h.registers, h.memory, h.program, h.last⟩

/-! ## Loads and edits -/

theorem reset (h : c.Alike d) : c.reset.Alike d.reset := ⟨rfl, rfl, rfl, rfl, rfl, h.program, rfl⟩

/-- A load reports the same to both cores, and leaves them alike whether it succeeds or not. -/
theorem loadReading (h : c.Alike d) (reading : Reading) :
    (c.loadReading reading).core.Alike (d.loadReading reading).core ∧
      (d.loadReading reading).result = (c.loadReading reading).result ∧
        (d.loadReading reading).log = (c.loadReading reading).log := by
  cases hwords : reading.words with
  | error error =>
    rw [c.loadReading_of_error hwords, d.loadReading_of_error hwords]
    exact ⟨h, rfl, rfl⟩
  | ok words =>
    rw [c.loadReading_of_ok hwords, d.loadReading_of_ok hwords]
    by_cases hlength : words.length ≤ programSize
    · rw [if_pos hlength, if_pos hlength]
      exact ⟨⟨rfl, rfl, rfl, rfl, rfl, rfl, rfl⟩, rfl, rfl⟩
    · rw [if_neg hlength, if_neg hlength]
      exact ⟨h, rfl, rfl⟩

theorem setRegister (h : c.Alike d) (r : BitVec 5) (value : Word) :
    (c.setRegister r value).Alike (d.setRegister r value) := by
  rw [h.eq_retraced]
  unfold Core.setRegister
  split
  · exact alike_retraced _ _ _
  · exact alike_retraced _ _ _

theorem store (h : c.Alike d) (address value : Word) :
    (c.store address value).Alike (d.store address value) := by
  rw [h.eq_retraced]
  exact alike_retraced _ _ _

theorem load (h : c.Alike d) (address : Word) :
    (c.load address).1.Alike (d.load address).1 ∧ (d.load address).2 = (c.load address).2 := by
  rw [h.eq_retraced]
  exact ⟨alike_retraced _ _ _, rfl⟩

/-- An edit is answered alike, and one that is refused is refused to both. -/
theorem edit (h : c.Alike d) (e : Edit) :
    (c.edit e).core.Alike (d.edit e).core ∧ (d.edit e).reply = (c.edit e).reply := by
  cases hreading : e.reading? with
  | some reading =>
    obtain ⟨hcore, hresult, hlog⟩ := h.loadReading reading
    rw [c.edit_of_reading hreading, d.edit_of_reading hreading, hresult, hlog]
    exact ⟨hcore, rfl⟩
  | none =>
    cases e with
    | load | loadFile => cases hreading
    | reset => exact ⟨h.reset, rfl⟩
    | setRegister index value =>
      simp only [Core.edit, setRegisterAt]
      cases registerAt? index with
      | none => exact ⟨h, rfl⟩
      | some r => exact ⟨h.setRegister r (wordOf value), rfl⟩
    | store address value => exact ⟨h.store _ _, rfl⟩
    | read address =>
      obtain ⟨hcore, hword⟩ := h.load (wordOf address)
      exact ⟨hcore, congrArg Edit.Reply.value hword⟩

end Alike

/-! ## Steps -/

/-- A step of one core and a step of another show the same phases and end alike. -/
structure StepsAlike (c : Core) (trace : Option Bool) (d : Core) (trace' : Option Bool) : Prop where
  core : (c.step trace).core.Alike (d.step trace').core
  result : (d.step trace').result = (c.step trace).result
  phases : (d.drain (.fresh trace')).phases = (c.drain (.fresh trace)).phases
  /-- They are alike behind the first phase already. -/
  first_core : (Attempt.resume c (.fresh trace)).core.Alike (Attempt.resume d (.fresh trace')).core
  first_outcome :
    (Attempt.resume d (.fresh trace')).outcome = (Attempt.resume c (.fresh trace)).outcome

namespace Alike

theorem fetch_eq (h : c.Alike d) : d.fetch = c.fetch := by
  rw [h.eq_retraced]
  rfl

theorem written_eq (h : c.Alike d) (word : Word) : d.written word = c.written word := by
  rw [h.eq_retraced]
  rfl

theorem beginLog (h : c.Alike d) (traced traced' : Bool) :
    (c.beginLog traced).Alike (d.beginLog traced') :=
  ⟨h.pc, h.cycle, h.halted, h.registers, h.memory, h.program, h.last⟩

theorem halt (h : c.Alike d) : { c with halted := true }.Alike { d with halted := true } :=
  ⟨h.pc, h.cycle, rfl, h.registers, h.memory, h.program, h.last⟩

theorem commit (h : c.Alike d) (w : Written) : (c.commit w).Alike (d.commit w) := by
  rw [h.eq_retraced]
  exact ⟨rfl, rfl, rfl, rfl, rfl, rfl, rfl⟩

/-- What a step does to a core is determined by what it fetches, and tracing has no part in that. -/
theorem steps (h : c.Alike d) (trace trace' : Option Bool) : c.StepsAlike trace d trace' := by
  cases hrun : c.halted with
  | true =>
    have hrun' : d.halted = true := h.halted.trans hrun
    exact {
      core := by rwa [step_of_halted hrun, step_of_halted hrun']
      result := by rw [step_of_halted hrun, step_of_halted hrun']
      phases := by rw [(seen_of_halted hrun).1, (seen_of_halted hrun').1]
      first_core := by rwa [resume_of_halted hrun, resume_of_halted hrun']
      first_outcome := by rw [resume_of_halted hrun, resume_of_halted hrun'] }
  | false =>
    have hrun' : d.halted = false := h.halted.trans hrun
    have hbegun := h.beginLog (c.traces trace) (d.traces trace')
    cases hfetch : c.fetch with
    | error fault =>
      have hfetch' : d.fetch = .error fault := h.fetch_eq.trans hfetch
      exact {
        core := by rwa [step_of_fault hrun hfetch, step_of_fault hrun' hfetch']
        result := by rw [step_of_fault hrun hfetch, step_of_fault hrun' hfetch']
        phases := by
          rw [drain_of_fault hrun hfetch, drain_of_fault hrun' hfetch']
          rfl
        first_core := by rwa [resume_of_fault hrun hfetch, resume_of_fault hrun' hfetch']
        first_outcome := by rw [resume_of_fault hrun hfetch, resume_of_fault hrun' hfetch'] }
    | ok fetched =>
      have hfetch' : d.fetch = .ok fetched := h.fetch_eq.trans hfetch
      cases fetched with
      | halt found =>
        exact {
          core := by
            rw [step_of_halt hrun hfetch, step_of_halt hrun' hfetch']
            exact hbegun.halt
          result := by rw [step_of_halt hrun hfetch, step_of_halt hrun' hfetch']
          phases := by rw [(seen_of_halt hrun hfetch).1, (seen_of_halt hrun' hfetch').1, h.pc]
          first_core := by
            rw [resume_of_halt hrun hfetch, resume_of_halt hrun' hfetch']
            exact hbegun.halt
          first_outcome := by
            rw [resume_of_halt hrun hfetch, resume_of_halt hrun' hfetch', h.pc] }
      | execute word =>
        exact {
          core := by
            rw [step_of_execute hrun hfetch, step_of_execute hrun' hfetch', h.written_eq]
            exact hbegun.commit _
          result := by
            rw [step_of_execute hrun hfetch, step_of_execute hrun' hfetch', h.written_eq]
          phases := by
            rw [(seen_of_execute hrun hfetch).1, (seen_of_execute hrun' hfetch').1, h.written_eq]
          first_core := by rwa [resume_of_execute hrun hfetch, resume_of_execute hrun' hfetch']
          first_outcome := by
            rw [resume_of_execute hrun hfetch, resume_of_execute hrun' hfetch', h.pc] }

/-- An observer takes the same notes of both steps, and is given as many pauses for it. If pauses
are refused, both steps are given up at the same place. -/
theorem watch {σ : Type} (h : c.Alike d) (watch : Watch σ) (trace trace' : Option Bool)
    (notes : σ) :
    (c.watch watch trace notes).core.Alike (d.watch watch trace' notes).core ∧
      (d.watch watch trace' notes).result = (c.watch watch trace notes).result ∧
        (d.watch watch trace' notes).notes = (c.watch watch trace notes).notes ∧
          (d.watch watch trace' notes).pauses = (c.watch watch trace notes).pauses := by
  have hsteps := h.steps trace trace'
  cases hpauses : watch.pausesPerPhase with
  | error refusal =>
    rw [watch_of_refused hpauses, watch_of_refused hpauses]
    unfold givenUp
    rw [hsteps.first_outcome]
    cases (Attempt.resume c (.fresh trace)).outcome with
    | fault fault => exact ⟨hsteps.first_core, rfl, rfl, rfl⟩
    | done result => exact ⟨hsteps.first_core, rfl, rfl, rfl⟩
    | phase progress => exact ⟨hsteps.first_core, rfl, rfl, rfl⟩
  | ok perPhase =>
    obtain ⟨hcore, hresult⟩ := drain_fresh c trace
    obtain ⟨hcore', hresult'⟩ := drain_fresh d trace'
    rw [watch_eq hpauses, watch_eq hpauses]
    unfold watchedOf
    rw [hcore, hcore', hresult, hresult', hsteps.phases]
    exact ⟨hsteps.core, hsteps.result, rfl, rfl⟩

/-! ## Runs -/

/-- Where a run ends is decided by program counters and by results of steps. -/
theorem runFrom (limits : RunLimits) (trace trace' : Option Bool) (bound : Nat) :
    ∀ {c d : Core} (_ : c.Alike d) (executed : Nat) (lines lines' : Array TraceLine),
      let run := Core.runFrom limits trace bound c executed lines
      let run' := Core.runFrom limits trace' bound d executed lines'
      run.core.Alike run'.core ∧ run'.executed = run.executed ∧ run'.ending = run.ending := by
  -- For all lines at once: the two runs print different ones.
  induction bound with
  | zero =>
    intro c d h executed lines lines'
    exact ⟨h, rfl, by simp only [Core.runFrom, h.halted]⟩
  | succ bound ih =>
    intro c d h executed lines lines'
    have hsteps := h.steps trace trace'
    have hstop : ∀ n, limits.stop n (d.step trace').core = limits.stop n (c.step trace).core := by
      intro n
      unfold RunLimits.stop
      rw [hsteps.core.pc]
    simp only [Core.runFrom, h.halted, hsteps.result, hstop]
    cases c.halted with
    | true => exact ⟨h, rfl, rfl⟩
    | false =>
      cases (c.step trace).result with
      | error fault => exact ⟨hsteps.core, rfl, rfl⟩
      | ok result =>
        simp only [Bool.false_eq_true, if_false]
        generalize (if result.isSome = true then executed + 1 else executed) = executed'
        cases limits.stop executed' (c.step trace).core with
        | true => exact ⟨hsteps.core, rfl, rfl⟩
        | false => exact ih hsteps.core _ _ _

end Alike

end Core

namespace Simulator

@[simp]
theorem pausesIn_append (first second : List Output) :
    pausesIn (first ++ second) = pausesIn first + pausesIn second := List.count_append

@[simp]
theorem pausesIn_line (text : String) : pausesIn [.line text] = 0 := rfl

@[simp]
theorem pausesIn_lines {α : Type} (lines : List α) (text : α → String) :
    pausesIn (lines.map fun line => .line (text line)) = 0 :=
  List.count_eq_zero.2 (by simp)

@[simp]
theorem pausesIn_appendList (output : Array Output) (later : List Output) :
    pausesIn (output.appendList later).toList = pausesIn output.toList + pausesIn later := by
  rw [Array.appendList_eq_append, Array.toList_appendList, pausesIn_append]

theorem pausesIn_outputs (pace : Pace) (event : Event) :
    pausesIn (pace.outputs event) = if pace.pausing then event.progress?.toList.length else 0 := by
  unfold pausesIn Pace.outputs
  cases event with
  | line printed => simp
  | phase progress => cases pace.pausing <;> simp

/-- There is a pause for each phase, or none at all. -/
@[simp]
theorem pausesIn_events (pace : Pace) (events : List Event) :
    pausesIn (events.flatMap pace.outputs) =
      if pace.pausing then (events.filterMap Event.progress?).length else 0 := by
  induction events with
  | nil => exact (ite_self 0).symm
  | cons event events ih =>
    rw [List.flatMap_cons, pausesIn_append, ih, pausesIn_outputs]
    cases pace.pausing with
    | false => rfl
    | true =>
      cases event with
      | line printed => exact Nat.zero_add _
      | phase progress => exact Nat.add_comm _ _

end Simulator

open Simulator in
/-- A paced run pauses behind phases only, so the lines that are printed between them make no
difference. -/
theorem Core.Alike.pacedFrom (pausing : Bool) (trace trace' : Option Bool) (limit : Int)
    (bound : Nat) :
    ∀ {c d : Core} (_ : c.Alike d) (executed : Nat) (output output' : Array Output)
      (_ : pausesIn output'.toList = pausesIn output.toList),
      let session := Simulator.pacedFrom ⟨pausing, trace⟩ limit bound c executed output
      let session' := Simulator.pacedFrom ⟨pausing, trace'⟩ limit bound d executed output'
      session.core.Alike session'.core ∧ session'.executed = session.executed ∧
        session'.ending = session.ending ∧ session'.pauses = session.pauses := by
  induction bound with
  | zero =>
    intro c d h executed output output' hpauses
    exact ⟨h, rfl, by simp only [Simulator.pacedFrom, h.halted], hpauses⟩
  | succ bound ih =>
    intro c d h executed output output' hpauses
    have hsteps := h.steps trace trace'
    obtain ⟨hcore, hresult⟩ := drain_fresh c trace
    obtain ⟨hcore', hresult'⟩ := drain_fresh d trace'
    have hlater :
        pausesIn (output'.appendList
          ((d.drain (.fresh trace')).events.flatMap (Pace.outputs ⟨pausing, trace'⟩))).toList =
        pausesIn (output.appendList
          ((c.drain (.fresh trace)).events.flatMap (Pace.outputs ⟨pausing, trace⟩))).toList := by
      have hphases := hsteps.phases
      unfold Drain.phases at hphases
      simp [hpauses, hphases]
    simp only [Simulator.pacedFrom, h.halted, hcore, hcore', hresult, hresult', hsteps.result]
    by_cases hover : (c.halted || limitReached limit executed) = true
    · rw [if_pos hover, if_pos hover]
      exact ⟨h, rfl, rfl, hpauses⟩
    · rw [if_neg hover, if_neg hover]
      cases (c.step trace).result with
      | error fault => exact ⟨hsteps.core, rfl, rfl, hlater⟩
      | ok result => exact ih hsteps.core _ _ _ hlater

open Simulator in
/-- A paced run whose pauses are refused is given up at the same place. -/
theorem Core.Alike.refusedRun {c d : Core} (h : c.Alike d) (refusal : Refusal)
    (trace trace' : Option Bool) (limit : Int) :
    let session := Simulator.refusedRun c refusal trace limit
    let session' := Simulator.refusedRun d refusal trace' limit
    session.core.Alike session'.core ∧ session'.executed = session.executed ∧
      session'.ending = session.ending ∧ session'.pauses = session.pauses := by
  have hsteps := h.steps trace trace'
  simp only [Simulator.refusedRun, h.halted, hsteps.first_outcome]
  split
  · exact ⟨h, rfl, rfl, rfl⟩
  · cases (Attempt.resume c (.fresh trace)).outcome with
    | fault fault =>
      exact ⟨hsteps.first_core, rfl, rfl, by simp [Session.pauses]⟩
    | done result =>
      exact ⟨hsteps.first_core, rfl, rfl, by simp [Session.pauses]⟩
    | phase progress =>
      exact ⟨hsteps.first_core, rfl, rfl, by simp [Session.pauses]⟩

/-! ## Calls -/

namespace Core

variable {c d : Core} {σ : Type}

/-- A call is answered alike whatever is chosen about tracing. -/
theorem Alike.answer (h : c.Alike d) {use use' : Use σ} (hcall : use'.call = use.call) :
    (use.answer c).1.Alike (use'.answer d).1 ∧ (use'.answer d).2 = (use.answer c).2 := by
  obtain ⟨call, setting, trace⟩ := use
  obtain ⟨call', setting', trace'⟩ := use'
  obtain rfl : call = call' := hcall.symm
  have hset := h.setTracing setting setting'
  cases call with
  | edit e =>
    obtain ⟨hcore, hreply⟩ := hset.edit e
    exact ⟨hcore, congrArg Reply.edited hreply⟩
  | step =>
    have hsteps := hset.steps trace trace'
    exact ⟨hsteps.core, congrArg Reply.stepped hsteps.result⟩
  | watch watch notes =>
    obtain ⟨hcore, hresult, hnotes, hpauses⟩ := hset.watch watch trace trace' notes
    simp only [Use.answer, hresult, hnotes, hpauses, and_true]
    exact hcore
  | run limits bound =>
    obtain ⟨hcore, hexecuted, hending⟩ := Alike.runFrom limits trace trace' bound hset 0 #[] #[]
    simp only [Use.answer, Core.run, hexecuted, hending, and_true]
    exact hcore
  | pacedRun pausing limit bound =>
    obtain ⟨hcore, hexecuted, hending, hpauses⟩ :=
      Alike.pacedFrom pausing trace trace' limit bound hset 0 #[] #[] rfl
    simp only [Use.answer, Simulator.pacedRun, hexecuted, hending, hpauses, and_true]
    exact hcore
  | refusedRun refusal limit =>
    obtain ⟨hcore, hexecuted, hending, hpauses⟩ := hset.refusedRun refusal trace trace' limit
    simp only [Use.answer, hexecuted, hending, hpauses, and_true]
    exact hcore

/-- Tracing only watches. Cores that differ in nothing but the trace setting and the log give the
same replies to the same calls, and are still so after them, whatever each of them is set to before
a call and whatever a call says about tracing itself. -/
theorem tracing_unobserved {uses uses' : List (Use σ)} (h : c.Alike d)
    (hcalls : uses'.map Use.call = uses.map Use.call) :
    (d.answerAll uses').2 = (c.answerAll uses).2 ∧
      (c.answerAll uses).1.Alike (d.answerAll uses').1 := by
  -- On the calls of the first core, for all states: the cores move on together.
  induction uses generalizing c d uses' with
  | nil =>
    obtain rfl := List.map_eq_nil_iff.1 hcalls
    exact ⟨rfl, h⟩
  | cons use uses ih =>
    obtain ⟨use', uses', rfl, hcall, hcalls⟩ := List.map_eq_cons_iff.1 hcalls
    obtain ⟨hcore, hreply⟩ := h.answer hcall
    obtain ⟨hreplies, hlast⟩ := ih hcore hcalls
    exact ⟨congrArg₂ List.cons hreply hreplies, hlast⟩

/-- One core is traced by a step and keeps a log of what is asked of it later; the other one, whose
log was begun before, has lost it. -/
theorem tracing_unobserved_store :
    let c := { fresh true with program := (Vector.replicate 256 0).set 0 0x00500093 }
    let d := { c with tracing := false, log := some [] }
    let calls : List (Call Nat) :=
      [.edit (.setRegister 2 7), .step, .edit (.store 4 9), .edit (.setRegister 32 1),
        .edit (.read (-124)),
        .watch ⟨some fun n _ _ => n + 1, .finite false 4 (-1), .system⟩ 0]
    let uses := calls.map fun call => ⟨call, true, none⟩
    let uses' := calls.map fun call => ⟨call, true, some false⟩
    c.Alike d ∧ uses'.map Use.call = uses.map Use.call ∧
      (d.answerAll uses').2 = (c.answerAll uses).2 ∧
      (c.answerAll (uses.take 5)).1.log =
        some [.register 1 5, .store 4 9, .load (-124) 9] ∧
      (d.answerAll (uses'.take 5)).1.log = none := by
  intro c d calls uses uses'
  have halike : c.Alike d := alike_retraced _ _ _
  have hcalls : uses'.map Use.call = uses.map Use.call := rfl
  exact ⟨halike, hcalls, (tracing_unobserved halike hcalls).1, by decide, by decide⟩

end Core

end SingleCycle
