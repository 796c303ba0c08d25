import SingleCycle.Core.Load
import SingleCycle.Proofs.Iteration
import SingleCycle.Proofs.WatchedStep
import SingleCycle.Simulator.Session

/-!
# Paced runs

A paced run looks at its limit before a step, a run looks at it behind one. As long as no limit can
be reached before the first step it makes no difference. If the clock refuses to pause, the first
step of a paced run is its last.
-/

namespace SingleCycle.Simulator

/-- Two sessions that have come to the same, the output apart. -/
structure Session.Like (session other : Session) : Prop where
  core : session.core = other.core
  executed : session.executed = other.executed
  ending : session.ending = other.ending

variable {c : Core} {pace : Pace} {limit : Int} {bound k : Nat}

theorem pacedFrom_of_over {output : Array Output}
    (h : (c.halted || limitReached limit k) = true) :
    pacedFrom pace limit bound c k output = ⟨c, k, output, .finished⟩ := by
  cases bound with
  | zero => rw [pacedFrom, if_pos h]
  | succ bound => rw [pacedFrom, if_pos h]

/-- From a place where the limit is not reached yet, a run and a paced run come to the same. -/
theorem like_runFrom (hopen : limitReached limit k = false) (output : Array Output)
    (lines : Array TraceLine) :
    (pacedFrom pace limit bound c k output).Like
      (ofRun (c.runFrom ⟨limit, []⟩ pace.trace bound k lines)) := by
  induction bound generalizing c k output lines with
  | zero =>
    refine ⟨rfl, rfl, ?_⟩
    simp only [pacedFrom, ofRun, Core.runFrom, hopen, Bool.or_false]
  | succ bound ih =>
    by_cases hhalted : c.halted = true
    · rw [pacedFrom_of_over (by rw [hhalted, Bool.true_or])]
      simp only [Core.runFrom, hhalted, if_true]
      exact ⟨rfl, rfl, rfl⟩
    have hrun : c.halted = false := eq_false_of_ne_true hhalted
    obtain ⟨hcore, hresult⟩ := Core.drain_fresh c pace.trace
    simp only [pacedFrom, Core.runFrom, hrun, hopen, hcore, hresult, Bool.or_false,
      Bool.false_eq_true, if_false]
    cases (c.step pace.trace).result with
    | error fault => exact ⟨rfl, rfl, rfl⟩
    | ok result =>
      simp only [RunLimits.stop, List.contains_nil, Bool.or_false]
      generalize (if result.isSome = true then k + 1 else k) = executed
      -- the run looks at the limit here, and the paced run when it comes to the next step
      by_cases hreached : limitReached limit executed = true
      · rw [if_pos hreached, pacedFrom_of_over (by rw [hreached, Bool.or_true])]
        exact ⟨rfl, rfl, rfl⟩
      · rw [if_neg hreached]
        exact ih (eq_false_of_ne_true hreached) _ _

/-- Every number of executed instructions reaches a negative limit. -/
theorem limitReached_of_neg (h : limit < 0) (executed : Nat) :
    limitReached limit executed = true := by
  have hne : limit ≠ 0 := by omega
  have hle : limit ≤ executed := by omega
  simp [limitReached, hne, hle]

theorem limitReached_zero (h : 0 ≤ limit) : limitReached limit 0 = false := by
  by_cases hlimit : limit = 0
  · simp [limitReached, hlimit]
  · have hlt : ¬ limit ≤ 0 := by omega
    simp [limitReached, hlt]

/-- Under a limit that is not negative, a run and a paced run come to the same. -/
theorem like_run (hlimit : 0 ≤ limit) (bound : Nat) :
    (pacedRun c pace limit bound).Like (ofRun (c.run ⟨limit, []⟩ pace.trace bound)) :=
  like_runFrom (limitReached_zero hlimit) #[] #[]

/-- How the paced runs of a core stand to its runs. -/
structure Paced (c : Core) (pace : Pace) (limit : Int) : Prop where
  /-- They come to the same where the limit is not negative, and where the core has stopped. -/
  same : 0 ≤ limit ∨ c.halted = true → ∀ bound,
    (pacedRun c pace limit bound).Like (ofRun (c.run ⟨limit, []⟩ pace.trace bound))
  /-- A paced run takes no step under a negative limit. -/
  refuses : limit < 0 → ∀ bound, pacedRun c pace limit bound = ⟨c, 0, #[], .finished⟩
  /-- A run takes one step under a negative limit. -/
  steps : limit < 0 → c.halted = false → ∀ bound, 1 ≤ bound →
    (c.run ⟨limit, []⟩ pace.trace bound).core = (c.step pace.trace).core ∧
    (c.run ⟨limit, []⟩ pace.trace bound).executed = (c.step pace.trace).executed ∧
    (c.run ⟨limit, []⟩ pace.trace bound).ending ≠ .unfinished

/-- Pacing changes nothing but the output where the limit is not negative. Under a negative limit a
paced run does nothing, and a run takes one step. -/
theorem paced (c : Core) (pace : Pace) (limit : Int) : Paced c pace limit where
  same h bound := by
    by_cases hhalted : c.halted = true
    · rw [pacedRun, pacedFrom_of_over (by rw [hhalted, Bool.true_or]), Core.run,
        Core.runFrom_of_halted hhalted]
      exact ⟨rfl, rfl, rfl⟩
    · have hlimit : 0 ≤ limit := h.resolve_right hhalted
      exact like_run hlimit bound
  refuses hlimit bound := by
    rw [pacedRun, pacedFrom_of_over (by rw [limitReached_of_neg hlimit 0, Bool.or_true])]
  steps hlimit hrun bound hbound := by
    obtain ⟨bound, rfl⟩ := Nat.exists_eq_add_of_le' hbound
    simp only [Core.run, Core.runFrom, hrun, Step.executed, RunLimits.stop,
      limitReached_of_neg hlimit, Bool.true_or, Bool.false_eq_true, if_false, if_true]
    cases (c.step pace.trace).result with
    | error fault => simp
    | ok result => cases result <;> simp

/-- One instruction, and a limit of minus one. -/
theorem paced_negative_limit :
    let c := { Core.fresh false with program := Core.programOf [0x00500093] }
    let session := pacedRun c ⟨true, none⟩ (-1) 9
    let run := c.run ⟨-1, []⟩ none 9
    0 ≤ c.pc ∧ session.ending = .finished ∧ run.ending = .finished ∧
      (session.executed, session.core.pc) = (0, 0) ∧ (run.executed, run.core.pc) = (1, 4) := by
  decide +kernel

/-- A paced run whose pauses are refused comes to what one watched step with such a pause comes
to: it takes the first phase and executes no instruction. -/
theorem refusedRun_of_refused {σ : Type} {watch : Watch σ} {refusal : Refusal} (hpc : 0 ≤ c.pc)
    (hrun : c.halted = false) (hopen : limitReached limit 0 = false)
    (hrefused : watch.clock.refusal? watch.delay = some refusal) (trace : Option Bool)
    (notes : σ) :
    let session := refusedRun c refusal trace limit
    session.core = (c.watch watch trace notes).core ∧ session.executed = 0 ∧
      session.ending = .fault (.pause refusal) ∧
      (c.watch watch trace notes).result = .error (.pause refusal) := by
  intro session
  have hwatch := c.watch_of_refused (Clock.pauses_of_refused hrefused) trace notes
  have hsession : session = refusedRun c refusal trace limit := rfl
  rw [hsession, hwatch]
  simp only [refusedRun, hrun, hopen, Bool.or_self, Bool.false_eq_true, if_false]
  cases hword : c.nextWord? with
  | none =>
    obtain ⟨found, hfetch⟩ := Core.fetch_of_no_nextWord hpc hword
    rw [Core.resume_of_halt hrun hfetch]
    exact ⟨rfl, rfl, rfl, rfl⟩
  | some word =>
    rw [Core.resume_of_execute hrun (Core.fetch_of_nextWord? hpc hword)]
    exact ⟨rfl, rfl, rfl, rfl⟩

end SingleCycle.Simulator
