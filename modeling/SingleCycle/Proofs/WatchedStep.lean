import Mathlib.Data.List.Basic
import SingleCycle.Core.Watch
import SingleCycle.Proofs.Loading
import SingleCycle.Proofs.Phases

/-!
# Whole, resumed and watched steps

A step can be taken as a whole, by resuming its phases one after the other, or under the eyes of an
observer. All three come to the same core, print the same lines and end with the same record. What
an observer is told of a phase is the record of the step with the places of later phases empty, so
nothing that it has been told is taken back.
-/

namespace SingleCycle

/-! ## Records that are filled phase by phase -/

/-- The place of a stage in the order of the stages. -/
def Stage.number : Stage → Nat
  | fetch => 0
  | decode => 1
  | execute => 2
  | memory => 3
  | writeBack => 4

/-- Whether a phase is over once a stage is. -/
def Stage.covers (stage phase : Stage) : Bool := phase.number ≤ stage.number

/-- A record as it was when a stage was over: what later phases compute is not filled in. -/
def Record.upTo (r : Record) (stage : Stage) : Record :=
  { word := r.word
    pcBefore := r.pcBefore
    pcAfter := if stage.covers .writeBack then r.pcAfter else none
    instruction := if stage.covers .decode then r.instruction else none
    control := if stage.covers .decode then r.control else none
    rs1Value := if stage.covers .decode then r.rs1Value else none
    rs2Value := if stage.covers .decode then r.rs2Value else none
    operandB := if stage.covers .execute then r.operandB else none
    aluResult := if stage.covers .execute then r.aluResult else none
    memoryValue := if stage.covers .memory then r.memoryValue else 0
    memoryAddress := if stage.covers .memory then r.memoryAddress else none
    memoryIndex := if stage.covers .memory then r.memoryIndex else none
    writeBack := if stage.covers .writeBack then r.writeBack else none }

theorem Record.upTo_upTo (r : Record) {stage later : Stage} (h : later.covers stage = true) :
    (r.upTo later).upTo stage = r.upTo stage := by
  have hle : stage.number ≤ later.number := of_decide_eq_true h
  have hcovers : ∀ phase, stage.covers phase = true → later.covers phase = true := fun phase hp =>
    decide_eq_true (Nat.le_trans (of_decide_eq_true hp) hle)
  -- Every place of the record is filled in by one phase, or is empty: taking out phases twice is
  -- the same argument at each of them.
  have hif : ∀ {α : Type} (phase : Stage) (x y : α),
      (if stage.covers phase then if later.covers phase then x else y else y) =
        if stage.covers phase then x else y := by
    intro α phase x y
    by_cases hp : stage.covers phase = true
    · rw [if_pos hp, if_pos hp, if_pos (hcovers phase hp)]
    · rw [if_neg hp, if_neg hp]
  unfold upTo
  simp only [hif]

/-- The phases of a step that executes an instruction to its end. -/
def Written.phases (w : Written) : List Progress :=
  [.fetched w.pc (some w.word), .decoded w.toDecoded, .executed w.toExecuted,
    .accessed w.toAccessed, .written w]

namespace Written

variable (w : Written)

theorem stages_phases : w.phases.map Progress.stage = Stage.all := rfl

theorem record_of_mem_phases {p : Progress} (h : p ∈ w.phases) :
    p.record = (Record.ofWritten w).upTo p.stage := by
  simp only [phases, List.mem_cons, List.not_mem_nil, or_false] at h
  rcases h with rfl | rfl | rfl | rfl | rfl <;> rfl

/-- A record that was shown is what is left of any later one when the later phases are taken out. -/
theorem pairwise_phases : w.phases.Pairwise fun p q => p.record = q.record.upTo p.stage := by
  have hstages : w.phases.Pairwise fun p q => q.stage.covers p.stage = true := by
    simp [phases, Progress.stage, Stage.covers, Stage.number]
  refine hstages.imp_of_mem fun hp hq hcovers => ?_
  rw [w.record_of_mem_phases hp, w.record_of_mem_phases hq, Record.upTo_upTo _ hcovers]

end Written

/-! ## What is seen of a step -/

/-- The phase that an event reports. -/
@[simp]
def Event.progress? : Event → Option Progress
  | .line _ => none
  | .phase progress => some progress

/-- The line that an event prints. -/
@[simp]
def Event.line? : Event → Option TraceLine
  | .line printed => some printed
  | .phase _ => none

/-- The phases that were seen, in order. -/
def Drain.phases (d : Drain) : List Progress := d.events.filterMap Event.progress?

/-- The lines that were printed, in order. -/
def Drain.lines (d : Drain) : List TraceLine := d.events.filterMap Event.line?

namespace Core

variable {c : Core} {word : Word} {trace : Option Bool} {σ : Type}

theorem eventsOf_eq (line : Option TraceLine) :
    c.eventsOf word line =
      (c.written word).phases.map Event.phase ++ line.toList.map Event.line := rfl

theorem seen_of_halted (h : c.halted = true) :
    (c.drain (.fresh trace)).phases = [] ∧ (c.drain (.fresh trace)).lines = [] := by
  rw [drain_of_halted h]
  exact ⟨rfl, rfl⟩

/-- A fetch that stops the core is all that is seen of a step. -/
theorem seen_of_halt {found : Option Word} (hrun : c.halted = false)
    (hfetch : c.fetch = .ok (.halt found)) :
    (c.drain (.fresh trace)).phases = [.fetched c.pc found] ∧
      (c.drain (.fresh trace)).lines = (c.haltLine (c.traces trace) found).toList := by
  rw [drain_of_halt hrun hfetch]
  simp [Drain.phases, Drain.lines, Function.comp_def, List.filterMap_cons]

/-- A step that executes a word shows all of its phases. -/
theorem seen_of_execute (hrun : c.halted = false) (hfetch : c.fetch = .ok (.execute word)) :
    (c.drain (.fresh trace)).phases = (c.written word).phases ∧
      (c.drain (.fresh trace)).lines = (c.lineOf (c.traces trace) (c.written word)).toList := by
  rw [drain_of_execute hrun hfetch, eventsOf_eq]
  simp [Drain.phases, Drain.lines, Function.comp_def]

theorem drain_lines (hpc : 0 ≤ c.pc) (trace : Option Bool) :
    (c.drain (.fresh trace)).lines = (c.step trace).line.toList := by
  rcases step_cases hpc trace with
    ⟨hhalted, hstep⟩ | ⟨hrun, found, hfetch, hstep⟩ | ⟨hrun, word, hfetch, hstep⟩
  · rw [hstep, (seen_of_halted hhalted).2]
    rfl
  · rw [hstep, (seen_of_halt hrun hfetch).2]
  · rw [hstep, (seen_of_execute hrun hfetch).2]

/-! ## Watching -/

/-- What a watched attempt comes to, if the attempt comes to the given end without an observer and
so many pauses are made behind each phase. -/
def watchedOf (watch : Watch σ) (perPhase : Nat) (notes : σ) (d : Drain) : Watched σ :=
  { core := d.core
    lines := d.lines
    notes := d.phases.foldl watch.note notes
    pauses := d.phases.length * perPhase
    result := d.result }

/-- An observer is told of every phase, in order and once, and does not change what comes of the
attempt. -/
theorem watchWithin_eq {watch : Watch σ} {perPhase : Nat}
    (hpauses : watch.pausesPerPhase = .ok perPhase) (n : Nat) :
    ∀ (c : Core) (attempt : Attempt) (notes : σ),
      watchWithin watch n c attempt notes =
        watchedOf watch perPhase notes (drainWithin n c attempt) := by
  -- For all cores and notes at once, since both change from one resumption to the next.
  induction n with
  | zero =>
    intro c attempt notes
    simp [watchWithin, drainWithin, watchedOf, Drain.lines, Drain.phases]
  | succ n ih =>
    intro c attempt notes
    cases houtcome : (attempt.resume c).outcome with
    | fault fault =>
      simp [watchWithin, drainWithin, houtcome, watchedOf, Drain.lines, Drain.phases,
        Function.comp_def]
    | done result =>
      simp [watchWithin, drainWithin, houtcome, watchedOf, Drain.lines, Drain.phases,
        Function.comp_def]
    | phase progress =>
      simp [watchWithin, drainWithin, houtcome, hpauses, ih, watchedOf, Drain.lines, Drain.phases,
        Function.comp_def, List.filterMap_cons, Nat.add_comm, Nat.add_mul]

theorem watch_eq {watch : Watch σ} {perPhase : Nat}
    (hpauses : watch.pausesPerPhase = .ok perPhase) (trace : Option Bool) (notes : σ) :
    c.watch watch trace notes = watchedOf watch perPhase notes (c.drain (.fresh trace)) :=
  watchWithin_eq hpauses _ c (.fresh trace) notes

/-- The three ways to take a step from the core `c` agree, and what is seen on the way is as it
should be. -/
structure StepsAgree (c : Core) (trace : Option Bool) (watch : Watch σ) (notes : σ) : Prop where
  drain_result : (c.drain (.fresh trace)).result = (c.step trace).result
  drain_core : (c.drain (.fresh trace)).core = (c.step trace).core
  drain_lines : (c.drain (.fresh trace)).lines = (c.step trace).line.toList
  watch_result : (c.watch watch trace notes).result = (c.step trace).result
  watch_core : (c.watch watch trace notes).core = (c.step trace).core
  watch_lines : (c.watch watch trace notes).lines = (c.step trace).line.toList
  /-- An observer is told of the phases in order and of each of them once. -/
  watch_notes : (c.watch watch trace notes).notes =
    match watch.notify with
    | some notify => (c.drain (.fresh trace)).phases.foldl
        (fun notes p => notify notes p.stage p.record) notes
    | none => notes
  /-- There is one pause for each phase, or none at all. -/
  watch_pauses : (c.watch watch trace notes).pauses =
    if watch.delay.isZero then 0 else (c.drain (.fresh trace)).phases.length
  /-- A halted core goes through no phase. -/
  of_halted : c.halted = true →
    (c.drain (.fresh trace)).phases = [] ∧ (c.step trace).result = .ok none
  /-- A core that stops goes through the first phase only. -/
  of_stop : c.halted = false → c.nextWord? = none →
    (c.drain (.fresh trace)).phases.map Progress.stage = [.fetch] ∧
      (c.step trace).result = .ok none
  /-- Every other step goes through all phases. What is shown of a phase is what is left of any
  later record, and of the record of the step, when later phases are taken out. -/
  of_word : c.halted = false → ∀ word ∈ c.nextWord?,
    ∃ w, (c.step trace).result = .ok (some w) ∧ w.word = word ∧
      (c.drain (.fresh trace)).phases.map Progress.stage = Stage.all ∧
      (c.drain (.fresh trace)).phases.getLast? = some (.written w) ∧
      (c.drain (.fresh trace)).phases.Pairwise (fun p q => p.record = q.record.upTo p.stage) ∧
      ∀ p ∈ (c.drain (.fresh trace)).phases, p.record = (Record.ofWritten w).upTo p.stage

theorem foldl_note (watch : Watch σ) (notes : σ) (phases : List Progress) :
    phases.foldl watch.note notes =
      match watch.notify with
      | some notify => phases.foldl (fun notes p => notify notes p.stage p.record) notes
      | none => notes := by
  unfold Watch.note
  cases watch.notify with
  | some notify => rfl
  | none => exact List.foldl_fixed phases

/-- From every core whose program counter is not negative, and whatever is traced, a step, its
phases resumed one after the other, and a step under the eyes of any observer are the same step,
with pauses of any length that the clock does not refuse. -/
theorem stepsAgree (c : Core) (hpc : 0 ≤ c.pc) (trace : Option Bool)
    (notify : Option (σ → Stage → Record → σ)) {clock : Clock} (delay : clock.Delay) (notes : σ) :
    c.StepsAgree trace ⟨notify, delay.length, clock⟩ notes := by
  obtain ⟨hcore, hresult⟩ := drain_fresh c trace
  have hlines := drain_lines hpc trace
  have hpauses : (Watch.mk notify delay.length clock).pausesPerPhase =
      .ok (if delay.length.isZero then 0 else 1) := delay.pauses_eq
  have hwatch := c.watch_eq hpauses trace notes
  exact {
    drain_result := hresult
    drain_core := hcore
    drain_lines := hlines
    watch_result := by rwa [hwatch]
    watch_core := by rwa [hwatch]
    watch_lines := by rwa [hwatch]
    watch_notes := by
      rw [hwatch]
      exact foldl_note _ notes _
    watch_pauses := by
      rw [hwatch]
      show _ * (if delay.length.isZero then 0 else 1) = _
      split
      · rfl
      · exact Nat.mul_one _
    of_halted := by
      intro hhalted
      rw [step_of_halted hhalted]
      exact ⟨(seen_of_halted hhalted).1, rfl⟩
    of_stop := by
      intro hrun hword
      obtain ⟨found, hfetch⟩ := fetch_of_no_nextWord hpc hword
      rw [(seen_of_halt hrun hfetch).1, step_of_halt hrun hfetch]
      exact ⟨rfl, rfl⟩
    of_word := by
      intro hrun word hword
      have hfetch := fetch_of_nextWord? hpc hword
      rw [(seen_of_execute hrun hfetch).1, step_of_execute hrun hfetch]
      exact ⟨c.written word, rfl, rfl, rfl, rfl, (c.written word).pairwise_phases,
        fun p hp => (c.written word).record_of_mem_phases hp⟩ }

/-- A traced store from an address that is no multiple of four, with an observer that collects
stages and what the records say of data memory, and with pauses that the clock of the system
makes. -/
theorem stepsAgree_store :
    let c := { fresh true with pc := 6, program := programOf [0, 0x0020A223] }
    c.nextWord? = some 0x0020A223 ∧
      c.StepsAgree none
        ⟨some fun notes stage record => (stage, record.memoryIndex) :: notes,
          .finite false 4 (-1), .system⟩ [] := by
  refine ⟨?_, stepsAgree _ (by decide) none _ ⟨.finite false 4 (-1), by decide +kernel⟩ []⟩
  unfold nextWord?
  rw [getElem?_programOf _ (by decide)]
  rfl

/-! ## Pauses that are refused -/

/-- What a watched attempt comes to whose pauses are refused, if it is resumed once. -/
def givenUp (watch : Watch σ) (refusal : Refusal) (notes : σ) (resumed : Resumption) : Watched σ :=
  match resumed.outcome with
  | .fault fault => ⟨resumed.core, resumed.line.toList, notes, 0, .error fault⟩
  | .done result => ⟨resumed.core, resumed.line.toList, notes, 0, .ok result⟩
  | .phase progress =>
    ⟨resumed.core, resumed.line.toList, watch.note notes progress, 0, .error (.pause refusal)⟩

theorem watch_of_refused {watch : Watch σ} {refusal : Refusal}
    (hpauses : watch.pausesPerPhase = .error refusal) (trace : Option Bool) (notes : σ) :
    c.watch watch trace notes =
      givenUp watch refusal notes (Attempt.resume c (.fresh trace)) := by
  simp only [Core.watch, Attempt.remaining, watchWithin, hpauses]
  rfl

/-- How a watched step ends whose pauses are refused. The refusal comes behind the first phase, of
which the observer has been told, and no other phase is gone through. -/
structure GivesUp (c : Core) (trace : Option Bool) (watch : Watch σ) (refusal : Refusal)
    (notes : σ) : Prop where
  /-- A halted core asks for no pause. -/
  of_halted : c.halted = true → c.watch watch trace notes = ⟨c, [], notes, 0, .ok none⟩
  /-- A core that stops has stopped when it asks for the pause. -/
  of_stop : c.halted = false → c.nextWord? = none →
    (c.watch watch trace notes).core = (c.step trace).core ∧
      (c.watch watch trace notes).lines = (c.step trace).line.toList ∧
      (c.watch watch trace notes).result = .error (.pause refusal)
  /-- Of every other step no more is left than an empty log. -/
  of_word : c.halted = false → ∀ word ∈ c.nextWord?,
    c.watch watch trace notes =
      ⟨c.beginLog (c.traces trace), [], watch.note notes (.fetched c.pc (some word)), 0,
        .error (.pause refusal)⟩

/-- A watched step whose pauses are refused is given up at the first of them, whatever it executes. -/
theorem givesUp (c : Core) (hpc : 0 ≤ c.pc) (trace : Option Bool) (watch : Watch σ)
    {refusal : Refusal} (hrefused : watch.clock.refusal? watch.delay = some refusal) (notes : σ) :
    c.GivesUp trace watch refusal notes := by
  have hwatch := c.watch_of_refused (Clock.pauses_of_refused hrefused) trace notes
  exact {
    of_halted := by
      intro hhalted
      rw [hwatch, resume_of_halted hhalted]
      rfl
    of_stop := by
      intro hrun hword
      obtain ⟨found, hfetch⟩ := fetch_of_no_nextWord hpc hword
      rw [hwatch, resume_of_halt hrun hfetch, step_of_halt hrun hfetch]
      exact ⟨rfl, rfl, rfl⟩
    of_word := by
      intro hrun word hword
      rw [hwatch, resume_of_execute hrun (fetch_of_nextWord? hpc hword)]
      rfl }

end Core

end SingleCycle
