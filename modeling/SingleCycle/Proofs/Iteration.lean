import SingleCycle.Core.Run
import SingleCycle.Proofs.WholeStep

/-!
# Runs are steps

A run takes one step after the other, and looks behind each of them whether it goes on. So it takes
the steps up to the first one after which it does not, or as many as it is given.
-/

namespace SingleCycle

/-- The number of instructions that a step executes. -/
def Step.executed (s : Step) : Nat :=
  match s.result with
  | .ok (some _) => 1
  | _ => 0

theorem Step.executed_le_one (s : Step) : s.executed ≤ 1 := by
  unfold Step.executed
  split
  · exact Nat.le_refl 1
  · exact Nat.zero_le 1

namespace Core

variable {c d e : Core} {trace : Option Bool}

/-! ## Many steps -/

/-- The core after a number of steps. -/
def after (c : Core) (trace : Option Bool) : Nat → Core
  | 0 => c
  | n + 1 => (c.step trace).core.after trace n

/-- The number of instructions that are executed in a number of steps. -/
def executedIn (c : Core) (trace : Option Bool) : Nat → Nat
  | 0 => 0
  | n + 1 => (c.step trace).executed + (c.step trace).core.executedIn trace n

/-- What a step of a core with a program counter that is not negative comes to. -/
structure Counted (c : Core) (s : Step) : Prop where
  ok : ∃ result, s.result = .ok result ∧ s.executed = if result.isSome then 1 else 0
  /-- A step that executes nothing is one that finds the core stopped, or stops it. -/
  executed : s.executed = if s.core.halted then 0 else 1
  cycle : s.core.cycle = c.cycle + s.executed
  pc : 0 ≤ s.core.pc

theorem counted_step (hpc : 0 ≤ c.pc) (trace : Option Bool) : c.Counted (c.step trace) := by
  rcases step_cases hpc trace with
    ⟨hhalted, hstep⟩ | ⟨hrun, found, -, hstep⟩ | ⟨hrun, word, -, hstep⟩
  · rw [hstep]
    refine ⟨⟨none, rfl, rfl⟩, ?_, rfl, hpc⟩
    rw [hhalted]
    rfl
  · rw [hstep]
    exact ⟨⟨none, rfl, rfl⟩, rfl, rfl, hpc⟩
  · rw [hstep]
    refine ⟨⟨_, rfl, rfl⟩, ?_, rfl, Int.natCast_nonneg _⟩
    show 1 = if c.halted then 0 else 1
    rw [hrun]
    rfl

theorem after_add (c : Core) (trace : Option Bool) (m n : Nat) :
    c.after trace (m + n) = (c.after trace m).after trace n := by
  induction m generalizing c with
  | zero => rw [Nat.zero_add, after]
  | succ m ih => rw [Nat.succ_add, after, ih, after]

theorem executedIn_add (c : Core) (trace : Option Bool) (m n : Nat) :
    c.executedIn trace (m + n) = c.executedIn trace m + (c.after trace m).executedIn trace n := by
  induction m generalizing c with
  | zero => rw [Nat.zero_add, executedIn, Nat.zero_add, after]
  | succ m ih => rw [Nat.succ_add, executedIn, ih, executedIn, after, Nat.add_assoc]

theorem after_succ (n : Nat) : c.after trace (n + 1) = ((c.after trace n).step trace).core :=
  after_add c trace n 1

theorem executedIn_succ (n : Nat) :
    c.executedIn trace (n + 1) = c.executedIn trace n + ((c.after trace n).step trace).executed :=
  executedIn_add c trace n 1

theorem pc_after (hpc : 0 ≤ c.pc) (n : Nat) : 0 ≤ (c.after trace n).pc := by
  induction n with
  | zero => exact hpc
  | succ n ih =>
    rw [after_succ]
    exact (counted_step ih trace).pc

theorem cycle_after (hpc : 0 ≤ c.pc) (n : Nat) :
    (c.after trace n).cycle = c.cycle + c.executedIn trace n := by
  induction n with
  | zero => rfl
  | succ n ih =>
    rw [after_succ, executedIn_succ, (counted_step (pc_after hpc n) trace).cycle, ih, Nat.add_assoc]

/-- As long as the core does not stop, every step executes an instruction. -/
theorem executedIn_of_running (hpc : 0 ≤ c.pc) {n : Nat} (h : (c.after trace n).halted = false) :
    c.executedIn trace n = n := by
  induction n with
  | zero => rfl
  | succ n ih =>
    have hstep : (c.after trace n).Counted ((c.after trace n).step trace) :=
      counted_step (pc_after hpc n) trace
    have hbefore : (c.after trace n).halted = false := by
      cases hhalted : (c.after trace n).halted with
      | false => rfl
      | true =>
        rw [after_succ, step_of_halted hhalted, hhalted] at h
        cases h
    rw [after_succ] at h
    rw [executedIn_succ, ih hbefore, hstep.executed, h]
    rfl

/-- A core that has stopped stays as it is. -/
theorem after_of_halted (h : c.halted = true) (n : Nat) :
    c.after trace n = c ∧ c.executedIn trace n = 0 := by
  induction n with
  | zero => exact ⟨rfl, rfl⟩
  | succ n ih =>
    rw [after_succ, executedIn_succ, ih.1, ih.2, step_of_halted h]
    exact ⟨rfl, rfl⟩

/-- A running core takes a step before it has stopped. -/
theorem pos_of_halted (hrun : c.halted = false) {n : Nat} (h : (c.after trace n).halted = true) :
    1 ≤ n := by
  rcases Nat.eq_zero_or_pos n with rfl | hn
  · rw [after, hrun] at h
    cases h
  · exact hn

/-- Once the core has stopped, the number of steps makes no difference. -/
theorem after_of_le {m n : Nat} (h : (c.after trace m).halted = true) (hle : m ≤ n) :
    c.after trace n = c.after trace m ∧ c.executedIn trace n = c.executedIn trace m := by
  obtain ⟨rest, rfl⟩ := Nat.exists_eq_add_of_le hle
  rw [after_add, executedIn_add, (after_of_halted h rest).1, (after_of_halted h rest).2]
  exact ⟨rfl, rfl⟩

/-- The step that stops the core is the only one that executes nothing. -/
theorem executedIn_of_stopping (hpc : 0 ≤ c.pc) {n : Nat}
    (hbefore : (c.after trace n).halted = false)
    (h : (c.after trace (n + 1)).halted = true) : c.executedIn trace (n + 1) = n := by
  have hstep : (c.after trace n).Counted ((c.after trace n).step trace) :=
    counted_step (pc_after hpc n) trace
  rw [after_succ] at h
  rw [executedIn_succ, executedIn_of_running hpc hbefore, hstep.executed, h]
  rfl

/-! ## Runs, step by step -/

variable {limits : RunLimits} {bound k : Nat} {lines : Array TraceLine}

theorem runFrom_of_halted (h : c.halted = true) :
    runFrom limits trace bound c k lines = ⟨c, k, lines, .finished⟩ := by
  cases bound <;> simp [runFrom, h]

theorem runFrom_succ (hpc : 0 ≤ c.pc) (hrun : c.halted = false) :
    runFrom limits trace (bound + 1) c k lines =
      if limits.stop (k + (c.step trace).executed) (c.step trace).core then
        ⟨(c.step trace).core, k + (c.step trace).executed, appendLine lines (c.step trace).line,
          .finished⟩
      else runFrom limits trace bound (c.step trace).core (k + (c.step trace).executed)
        (appendLine lines (c.step trace).line) := by
  obtain ⟨result, hresult, hexecuted⟩ := (counted_step hpc trace).ok
  have hcount : (if result.isSome then k + 1 else k) = k + (c.step trace).executed := by
    rw [hexecuted]
    cases result <;> rfl
  simp only [runFrom, hrun, hresult, hcount, Bool.false_eq_true, if_false]

/-- Whether a run that has executed `k` instructions goes on after it has taken `n` steps more. -/
def GoesOn (c : Core) (limits : RunLimits) (trace : Option Bool) (k n : Nat) : Prop :=
  (c.after trace n).halted = false ∧
    limits.stop (k + c.executedIn trace n) (c.after trace n) = false

/-- A core that was running has not stopped where its run goes on. -/
theorem running_of_goesOn (hrun : c.halted = false) {n : Nat}
    (h : ∀ i, 1 ≤ i → i ≤ n → c.GoesOn limits trace k i) : (c.after trace n).halted = false := by
  rcases Nat.eq_zero_or_pos n with rfl | hn
  · exact hrun
  · exact (h n hn (Nat.le_refl n)).1

/-- A run takes the steps after which it goes on. -/
theorem runFrom_add (hpc : 0 ≤ c.pc) (hrun : c.halted = false) {n : Nat}
    (h : ∀ i, 1 ≤ i → i ≤ n → c.GoesOn limits trace k i) (bound : Nat) (lines : Array TraceLine) :
    ∃ later, runFrom limits trace (n + bound) c k lines =
      runFrom limits trace bound (c.after trace n) (k + c.executedIn trace n) later := by
  induction n generalizing c k lines with
  | zero => exact ⟨lines, by rw [Nat.zero_add, after, executedIn, Nat.add_zero]⟩
  | succ n ih =>
    have hstep : c.Counted (c.step trace) := counted_step hpc trace
    obtain ⟨hfirst, hopen⟩ : (c.step trace).core.halted = false ∧
        limits.stop (k + (c.step trace).executed) (c.step trace).core = false :=
      h 1 (Nat.le_refl 1) (Nat.le_add_left 1 n)
    have hrest : ∀ i, 1 ≤ i → i ≤ n →
        (c.step trace).core.GoesOn limits trace (k + (c.step trace).executed) i := by
      intro i hi hn
      obtain ⟨hhalted, hstop⟩ := h (i + 1) (Nat.le_add_left 1 i) (Nat.succ_le_succ hn)
      rw [executedIn, ← Nat.add_assoc] at hstop
      exact ⟨hhalted, hstop⟩
    obtain ⟨later, hlater⟩ := ih hstep.pc hfirst hrest (appendLine lines (c.step trace).line)
    refine ⟨later, ?_⟩
    rw [Nat.succ_add, runFrom_succ hpc hrun, if_neg (ne_true_of_eq_false hopen), hlater, after,
      executedIn, Nat.add_assoc]

/-- A run ends after the first step after which it does not go on. -/
theorem runFrom_of_first (hpc : 0 ≤ c.pc) (hrun : c.halted = false) {n : Nat} (hn : 1 ≤ n)
    (hfirst : ∀ i, 1 ≤ i → i < n → c.GoesOn limits trace k i)
    (hend : ¬ c.GoesOn limits trace k n) (hbound : n ≤ bound) (lines : Array TraceLine) :
    (runFrom limits trace bound c k lines).core = c.after trace n ∧
      (runFrom limits trace bound c k lines).executed = k + c.executedIn trace n ∧
      (runFrom limits trace bound c k lines).ending = .finished := by
  obtain ⟨m, rfl⟩ := Nat.exists_eq_add_of_le' hn
  obtain ⟨rest, rfl⟩ := Nat.exists_eq_add_of_le hbound
  have hopen : ∀ i, 1 ≤ i → i ≤ m → c.GoesOn limits trace k i :=
    fun i hi him => hfirst i hi (Nat.lt_succ_of_le him)
  have hbefore := running_of_goesOn hrun hopen
  obtain ⟨later, hlater⟩ := runFrom_add hpc hrun hopen (1 + rest) lines
  rw [Nat.add_assoc, hlater, Nat.add_comm 1 rest, runFrom_succ (pc_after hpc m) hbefore,
    after_succ, executedIn_succ, ← Nat.add_assoc]
  cases hstop : limits.stop (k + c.executedIn trace m + ((c.after trace m).step trace).executed)
      ((c.after trace m).step trace).core with
  | true => exact ⟨rfl, rfl, rfl⟩
  | false =>
    -- the core has stopped, and the loop finds it so
    have hhalted : ((c.after trace m).step trace).core.halted = true := by
      cases hhalted : ((c.after trace m).step trace).core.halted with
      | true => rfl
      | false =>
        rw [GoesOn, after_succ, executedIn_succ, ← Nat.add_assoc] at hend
        exact absurd ⟨hhalted, hstop⟩ hend
    rw [if_neg Bool.false_ne_true, runFrom_of_halted hhalted]
    exact ⟨rfl, rfl, rfl⟩

/-- Within a bound there is a first step after which a run does not go on, or there is none. -/
theorem goesOn_or_first (c : Core) (limits : RunLimits) (trace : Option Bool) (k bound : Nat) :
    (∀ i, 1 ≤ i → i ≤ bound → c.GoesOn limits trace k i) ∨
      ∃ n, 1 ≤ n ∧ n ≤ bound ∧ (∀ i, 1 ≤ i → i < n → c.GoesOn limits trace k i) ∧
        ¬ c.GoesOn limits trace k n := by
  induction bound with
  | zero => exact .inl fun i hi hle => absurd hi (by omega)
  | succ bound ih =>
    rcases ih with hall | ⟨n, hn, hle, hfirst⟩
    · by_cases hnext : c.GoesOn limits trace k (bound + 1)
      · refine .inl fun i hi hle => ?_
        rcases Nat.le_succ_iff.1 hle with hle | rfl
        · exact hall i hi hle
        · exact hnext
      · exact .inr ⟨bound + 1, Nat.le_add_left 1 bound, Nat.le_refl _,
          fun i hi hlt => hall i hi (Nat.le_of_lt_succ hlt), hnext⟩
    · exact .inr ⟨n, hn, Nat.le_succ_of_le hle, hfirst⟩

/-- A run goes on as long as its bound lasts, or ends after the first step after which it does not
go on. -/
theorem runFrom_cases (hpc : 0 ≤ c.pc) (hrun : c.halted = false) (limits : RunLimits)
    (trace : Option Bool) (k bound : Nat) (lines : Array TraceLine) :
    ((∀ i, 1 ≤ i → i ≤ bound → c.GoesOn limits trace k i) ∧
      (runFrom limits trace bound c k lines).core = c.after trace bound ∧
      (runFrom limits trace bound c k lines).executed = k + c.executedIn trace bound ∧
      (runFrom limits trace bound c k lines).ending = .unfinished) ∨
    ∃ n, 1 ≤ n ∧ n ≤ bound ∧ (∀ i, 1 ≤ i → i < n → c.GoesOn limits trace k i) ∧
      ¬ c.GoesOn limits trace k n ∧
      (runFrom limits trace bound c k lines).core = c.after trace n ∧
      (runFrom limits trace bound c k lines).executed = k + c.executedIn trace n ∧
      (runFrom limits trace bound c k lines).ending = .finished := by
  rcases goesOn_or_first c limits trace k bound with hall | ⟨n, hn, hle, hfirst, hend⟩
  · have hhalted := running_of_goesOn hrun hall
    obtain ⟨later, hlater⟩ := runFrom_add hpc hrun hall 0 lines
    rw [Nat.add_zero] at hlater
    refine .inl ⟨hall, ?_⟩
    rw [hlater, runFrom, hhalted]
    exact ⟨rfl, rfl, rfl⟩
  · exact .inr ⟨n, hn, hle, hfirst, hend, runFrom_of_first hpc hrun hn hfirst hend hle lines⟩

/-! ## Runs from their start -/

/-- A run takes steps, and counts the instructions that they execute. -/
theorem run_taken (hpc : 0 ≤ c.pc) (limits : RunLimits) (trace : Option Bool) (bound : Nat) :
    ∃ n, (c.run limits trace bound).core = c.after trace n ∧
      (c.run limits trace bound).executed = c.executedIn trace n := by
  by_cases hhalted : c.halted = true
  · rw [run, runFrom_of_halted hhalted]
    exact ⟨0, rfl, rfl⟩
  · have hrun : c.halted = false := eq_false_of_ne_true hhalted
    rcases runFrom_cases hpc hrun limits trace 0 bound #[] with
      ⟨-, hcore, hexecuted, -⟩ | ⟨n, -, -, -, -, hcore, hexecuted, -⟩
    · exact ⟨bound, hcore, hexecuted.trans (Nat.zero_add _)⟩
    · exact ⟨n, hcore, hexecuted.trans (Nat.zero_add _)⟩

theorem runFrom_within {limit : Int} (hpc : 0 ≤ c.pc) (hk : k < limit) (lines : Array TraceLine) :
    (runFrom ⟨limit, []⟩ trace bound c k lines).executed ≤ limit := by
  induction bound generalizing c k lines with
  | zero => exact Int.le_of_lt hk
  | succ bound ih =>
    by_cases hhalted : c.halted = true
    · rw [runFrom_of_halted hhalted]
      exact Int.le_of_lt hk
    · rw [runFrom_succ hpc (eq_false_of_ne_true hhalted)]
      have hone := (c.step trace).executed_le_one
      by_cases hstop : RunLimits.stop ⟨limit, []⟩ (k + (c.step trace).executed)
          (c.step trace).core = true
      · rw [if_pos hstop]
        show ((k + (c.step trace).executed : Nat) : Int) ≤ limit
        omega
      · rw [if_neg hstop]
        have hbelow : ((k + (c.step trace).executed : Nat) : Int) < limit := by
          simp [RunLimits.stop, limitReached] at hstop
          omega
        exact ih (counted_step hpc trace).pc hbelow _

/-- A run executes no more instructions than its limit says, if it says how many. -/
theorem run_within {limit : Int} (hpc : 0 ≤ c.pc) (hlimit : 0 < limit) (trace : Option Bool)
    (bound : Nat) :
    (c.run ⟨limit, []⟩ trace bound).executed ≤ limit :=
  runFrom_within hpc hlimit #[]

/-- A run that is over has stopped the core or has reached its limit. -/
theorem run_over {limit : Int} (hpc : 0 ≤ c.pc)
    (h : (c.run ⟨limit, []⟩ trace bound).ending = .finished) :
    (c.run ⟨limit, []⟩ trace bound).core.halted = true ∨
      limitReached limit (c.run ⟨limit, []⟩ trace bound).executed = true := by
  by_cases hhalted : c.halted = true
  · rw [run, runFrom_of_halted hhalted]
    exact .inl hhalted
  · have hrun : c.halted = false := eq_false_of_ne_true hhalted
    rcases runFrom_cases hpc hrun ⟨limit, []⟩ trace 0 bound #[] with
      ⟨-, -, -, hopen⟩ | ⟨n, -, -, -, hend, hcore, hexecuted, -⟩
    · rw [run, hopen] at h
      cases h
    · rw [run, hcore, hexecuted]
      by_cases hstopped : (c.after trace n).halted = true
      · exact .inl hstopped
      · right
        simpa [GoesOn, hstopped, RunLimits.stop] using hend

end Core

end SingleCycle
