import Mathlib.Order.Bounds.Defs
import SingleCycle.Core.Load
import SingleCycle.Proofs.Iteration

/-!
# Where runs end

A run ends after the first step behind which the core has stopped, enough instructions are executed
or the program counter is at a breakpoint. A run that is cut short by a limit or by breakpoints and
taken up again, as often as it needs, comes to what the run comes to that is not cut.
-/

namespace SingleCycle

namespace Core

variable {c d e : Core} {trace : Option Bool} {limits : RunLimits} {k : Nat}

/-! ## What ends a run -/

/-- What ends a run of a core after `n` steps. -/
def EndsAfter (c : Core) (limits : RunLimits) (trace : Option Bool) (n : Nat) : Prop :=
  (c.after trace n).halted = true ∨ (0 < limits.limit ∧ n = limits.limit) ∨
    (c.after trace n).pc ∈ limits.breakpoints

/-- As long as nothing has ended a run, it goes on. -/
theorem goesOn_of_not_endsAfter (hpc : 0 ≤ c.pc) (hlimit : 0 ≤ limits.limit) {n : Nat}
    (hn : 1 ≤ n) (h : ∀ i, 1 ≤ i → i ≤ n → ¬ c.EndsAfter limits trace i) :
    c.GoesOn limits trace 0 n := by
  obtain ⟨hhalted, -, hpoint⟩ : ¬ (c.after trace n).halted = true ∧ _ ∧
      ¬ (c.after trace n).pc ∈ limits.breakpoints := by
    simpa only [EndsAfter, not_or] using h n hn (Nat.le_refl n)
  have hrun := eq_false_of_ne_true hhalted
  have hbelow : limitReached limits.limit n = false := by
    cases hreached : limitReached limits.limit n with
    | false => rfl
    | true =>
      -- a limit that is reached is one of the numbers of steps so far
      obtain ⟨hne, hle⟩ : limits.limit ≠ 0 ∧ limits.limit ≤ n := by
        simpa [limitReached] using hreached
      exact absurd (.inr (.inl ⟨by omega, by omega⟩))
        (h limits.limit.toNat (by omega) (by omega))
  refine ⟨hrun, ?_⟩
  rw [executedIn_of_running hpc hrun, Nat.zero_add, RunLimits.stop, hbelow]
  simpa using hpoint

/-- What ends a run keeps it from going on. -/
theorem not_goesOn_of_endsAfter (hpc : 0 ≤ c.pc) {n : Nat} (h : c.EndsAfter limits trace n) :
    ¬ c.GoesOn limits trace 0 n := by
  rintro ⟨hrun, hopen⟩
  rw [executedIn_of_running hpc hrun, Nat.zero_add] at hopen
  simp only [RunLimits.stop, limitReached, Bool.or_eq_false_iff, Bool.and_eq_false_iff,
    bne_eq_false_iff_eq, decide_eq_false_iff_not] at hopen
  obtain ⟨hlimit, hpoint⟩ := hopen
  rcases h with hhalted | ⟨hpositive, hn⟩ | hmem
  · rw [hrun] at hhalted
    cases hhalted
  · omega
  · simp [hmem] at hpoint

/-! ## What a run comes to -/

/-- A run is over, having executed `k` instructions, and has left the core `d`. -/
def RunsTo (c : Core) (limits : RunLimits) (trace : Option Bool) (d : Core) (k : Nat) : Prop :=
  ∃ bound, (c.run limits trace bound).ending = .finished ∧
    (c.run limits trace bound).core = d ∧ (c.run limits trace bound).executed = k

/-- A running core runs to where the first step takes it after which the run does not go on. -/
theorem runsTo_iff (hpc : 0 ≤ c.pc) (hrun : c.halted = false) :
    c.RunsTo limits trace d k ↔ ∃ n, 1 ≤ n ∧ (∀ i, 1 ≤ i → i < n → c.GoesOn limits trace 0 i) ∧
      ¬ c.GoesOn limits trace 0 n ∧ d = c.after trace n ∧ k = c.executedIn trace n := by
  constructor
  · rintro ⟨bound, hending, rfl, rfl⟩
    rcases runFrom_cases hpc hrun limits trace 0 bound #[] with
      ⟨-, -, -, hopen⟩ | ⟨n, hn, -, hfirst, hend, hcore, hexecuted, -⟩
    · rw [Core.run, hopen] at hending
      cases hending
    · exact ⟨n, hn, hfirst, hend, hcore, hexecuted.trans (Nat.zero_add _)⟩
  · rintro ⟨n, hn, hfirst, hend, rfl, rfl⟩
    obtain ⟨hcore, hexecuted, hending⟩ :=
      runFrom_of_first hpc hrun hn hfirst hend (Nat.le_refl n) #[]
    exact ⟨n, hending, hcore, hexecuted.trans (Nat.zero_add _)⟩

theorem runsTo_of_halted (h : c.halted = true) :
    c.RunsTo limits trace d k ↔ d = c ∧ k = 0 := by
  simp only [RunsTo, Core.run, runFrom_of_halted h, true_and, exists_const]
  exact and_congr eq_comm eq_comm

theorem RunsTo.unique (hpc : 0 ≤ c.pc) {m : Nat} (h : c.RunsTo limits trace d k)
    (h' : c.RunsTo limits trace e m) : d = e ∧ k = m := by
  cases hrun : c.halted with
  | true =>
    obtain ⟨rfl, rfl⟩ := (runsTo_of_halted hrun).1 h
    obtain ⟨rfl, rfl⟩ := (runsTo_of_halted hrun).1 h'
    exact ⟨rfl, rfl⟩
  | false =>
    obtain ⟨n, hn, hfirst, hend, rfl, rfl⟩ := (runsTo_iff hpc hrun).1 h
    obtain ⟨n', hn', hfirst', hend', rfl, rfl⟩ := (runsTo_iff hpc hrun).1 h'
    obtain rfl : n = n' := by
      rcases Nat.lt_trichotomy n n' with hlt | heq | hlt
      · exact absurd (hfirst' n hn hlt) hend
      · exact heq
      · exact absurd (hfirst n' hn' hlt) hend'
    exact ⟨rfl, rfl⟩

/-- A run that is bound to stop ends, at the latest where the core stops. -/
theorem exists_runsTo (hpc : 0 ≤ c.pc) (hrun : c.halted = false) {n : Nat} (hn : 1 ≤ n)
    (hend : ¬ c.GoesOn limits trace 0 n) :
    ∃ i, 1 ≤ i ∧ i ≤ n ∧ ¬ c.GoesOn limits trace 0 i ∧
      c.RunsTo limits trace (c.after trace i) (c.executedIn trace i) := by
  rcases goesOn_or_first c limits trace 0 n with hall | ⟨i, hi, hle, hfirst, hstop⟩
  · exact absurd (hall n hn (Nat.le_refl n)) hend
  · exact ⟨i, hi, hle, hstop, (runsTo_iff hpc hrun).2 ⟨i, hi, hfirst, hstop, rfl, rfl⟩⟩

/-- A run with a limit takes as many steps, of which those that follow the end of the program do
nothing. -/
theorem runsTo_limit (hpc : 0 ≤ c.pc) {n : Nat} (hn : 1 ≤ n) :
    c.RunsTo ⟨n, []⟩ trace (c.after trace n) (c.executedIn trace n) := by
  cases hrun : c.halted with
  | true => exact (runsTo_of_halted hrun).2 (after_of_halted hrun n)
  | false =>
    have hend : ¬ c.GoesOn ⟨n, []⟩ trace 0 n :=
      not_goesOn_of_endsAfter hpc (.inr (.inl ⟨by show (0 : Int) < n; omega, rfl⟩))
    obtain ⟨i, hi, hle, hstop, hruns⟩ := exists_runsTo hpc hrun hn hend
    rcases Nat.eq_or_lt_of_le hle with rfl | hlt
    · exact hruns
    · have hhalted : (c.after trace i).halted = true := by
        cases hhalted : (c.after trace i).halted with
        | true => rfl
        | false =>
          have hopen : RunLimits.stop ⟨n, []⟩ (0 + i) (c.after trace i) = false := by
            simp [RunLimits.stop, limitReached]
            omega
          rw [GoesOn, executedIn_of_running hpc hhalted] at hstop
          exact absurd ⟨hhalted, hopen⟩ hstop
      obtain ⟨hcore, hexecuted⟩ := after_of_le hhalted hle
      rw [hcore, hexecuted]
      exact hruns

/-- A run without limit and breakpoints is over when the core has stopped. -/
theorem runsTo_unlimited_iff (hpc : 0 ≤ c.pc) :
    c.RunsTo ⟨0, []⟩ trace d k ↔ ∃ n, (c.after trace n).halted = true ∧
      d = c.after trace n ∧ k = c.executedIn trace n := by
  have hstopped : ∀ n, ¬ c.GoesOn ⟨0, []⟩ trace 0 n ↔ (c.after trace n).halted = true := by
    intro n
    simp [GoesOn, RunLimits.stop, limitReached]
  cases hrun : c.halted with
  | true =>
    rw [runsTo_of_halted hrun]
    simp only [(after_of_halted hrun _).1, (after_of_halted hrun _).2, hrun, true_and, exists_const]
  | false =>
    constructor
    · intro h
      obtain ⟨n, -, -, hend, hcore, hexecuted⟩ := (runsTo_iff hpc hrun).1 h
      exact ⟨n, (hstopped n).1 hend, hcore, hexecuted⟩
    · rintro ⟨n, hhalted, rfl, rfl⟩
      have hn := pos_of_halted hrun hhalted
      obtain ⟨i, -, hle, hend, hruns⟩ := exists_runsTo hpc hrun hn ((hstopped n).2 hhalted)
      obtain ⟨hcore, hexecuted⟩ := after_of_le ((hstopped i).1 hend) hle
      rw [hcore, hexecuted]
      exact hruns

/-- A run without limit and breakpoints takes the steps up to the one that stops the core. -/
theorem run_of_stopping (hpc : 0 ≤ c.pc) (hbefore : (c.after trace k).halted = false)
    (hhalted : (c.after trace (k + 1)).halted = true) {bound : Nat} (hbound : k < bound) :
    (c.run ⟨0, []⟩ trace bound).ending = .finished ∧
      (c.run ⟨0, []⟩ trace bound).core = c.after trace (k + 1) ∧
      (c.run ⟨0, []⟩ trace bound).executed = k := by
  have hrunning : ∀ i ≤ k, (c.after trace i).halted = false := by
    intro i hi
    refine eq_false_of_ne_true fun hearlier => ?_
    rw [(after_of_le hearlier hi).1, hearlier] at hbefore
    cases hbefore
  have hfirst : ∀ i, 1 ≤ i → i < k + 1 → c.GoesOn ⟨0, []⟩ trace 0 i :=
    fun i _ hi => ⟨hrunning i (Nat.le_of_lt_succ hi), rfl⟩
  have hend : ¬ c.GoesOn ⟨0, []⟩ trace 0 (k + 1) := by
    rintro ⟨hgoes, -⟩
    rw [hhalted] at hgoes
    cases hgoes
  obtain ⟨hcore, hexecuted, hending⟩ := runFrom_of_first hpc (hrunning 0 (Nat.zero_le k))
    (Nat.le_add_left 1 k) hfirst hend hbound #[]
  rw [Nat.zero_add, executedIn_of_stopping hpc hbefore hhalted] at hexecuted
  exact ⟨hending, hcore, hexecuted⟩

/-! ## Runs that are taken up again -/

/-- A run is over, and is taken up again where breakpoints end it until the core has stopped. All
in all `k` instructions are executed, and the core `d` is left. -/
inductive RunsOn (breakpoints : List Int) (trace : Option Bool) : Core → Core → Nat → Prop
  | stopped {c : Core} (h : c.halted = true) : RunsOn breakpoints trace c c 0
  | resumed {c d e : Core} {k m : Nat} (hrun : c.halted = false)
      (hfirst : c.RunsTo ⟨0, breakpoints⟩ trace d k) (hrest : RunsOn breakpoints trace d e m) :
      RunsOn breakpoints trace c e (k + m)

theorem runsOn_of_stopped {breakpoints : List Int} (n : Nat) :
    ∀ {c : Core}, 0 ≤ c.pc → (c.after trace n).halted = true →
      RunsOn breakpoints trace c (c.after trace n) (c.executedIn trace n) := by
  -- on the number of steps up to the end, of which every run takes some
  induction n using Nat.strongRecOn with
  | ind n ih =>
    intro c hpc hhalted
    cases hrun : c.halted with
    | true =>
      rw [(after_of_halted hrun n).1, (after_of_halted hrun n).2]
      exact .stopped hrun
    | false =>
      have hn := pos_of_halted hrun hhalted
      have hend : ¬ c.GoesOn ⟨0, breakpoints⟩ trace 0 n :=
        not_goesOn_of_endsAfter hpc (.inl hhalted)
      obtain ⟨i, hi, hle, -, hruns⟩ := exists_runsTo hpc hrun hn hend
      obtain ⟨rest, rfl⟩ := Nat.exists_eq_add_of_le hle
      rw [after_add] at hhalted
      rw [after_add, executedIn_add]
      exact .resumed hrun hruns (ih rest (by omega) (pc_after hpc i) hhalted)

theorem RunsOn.stops {breakpoints : List Int} (h : RunsOn breakpoints trace c d k)
    (hpc : 0 ≤ c.pc) :
    ∃ n, (c.after trace n).halted = true ∧ d = c.after trace n ∧ k = c.executedIn trace n := by
  induction h with
  | stopped hhalted => exact ⟨0, hhalted, rfl, rfl⟩
  | resumed hrun hfirst _ ih =>
    obtain ⟨i, -, -, -, rfl, rfl⟩ := (runsTo_iff hpc hrun).1 hfirst
    obtain ⟨n, hhalted, rfl, rfl⟩ := ih (pc_after hpc i)
    exact ⟨i + n, by rwa [after_add], (after_add _ trace i n).symm,
      (executedIn_add _ trace i n).symm⟩

/-! ## Runs told by their steps -/

/-- What runs come to, told by the steps that they take. -/
structure Iterates (c : Core) (trace : Option Bool) : Prop where
  /-- No step fails. -/
  ok : ∀ n, ∃ result, ((c.after trace n).step trace).result = .ok result
  /-- A run takes as many steps as it needs to come to something that ends it. -/
  ends : c.halted = false → ∀ limits : RunLimits, 0 ≤ limits.limit →
    ∀ n, IsLeast {n | 1 ≤ n ∧ c.EndsAfter limits trace n} n → ∀ bound, n ≤ bound →
      (c.run limits trace bound).ending = .finished ∧
      (c.run limits trace bound).core = c.after trace n ∧
      (c.run limits trace bound).executed =
        (if (c.after trace n).halted then n - 1 else n) ∧
      (c.after trace n).cycle = c.cycle + (c.run limits trace bound).executed
  /-- A run goes on if nothing ends it. -/
  unending : c.halted = false → ∀ limits : RunLimits, 0 ≤ limits.limit →
    (∀ n, 1 ≤ n → ¬ c.EndsAfter limits trace n) → ∀ bound,
      (c.run limits trace bound).ending = .unfinished
  /-- A run of a core that has stopped does nothing. -/
  stopped : c.halted = true → ∀ limits bound, c.run limits trace bound = ⟨c, 0, #[], .finished⟩
  /-- A run comes to one thing only. -/
  unique : ∀ limits d k e m, c.RunsTo limits trace d k → c.RunsTo limits trace e m → d = e ∧ k = m
  /-- Two runs with a limit are one run with the sum of the limits. -/
  split : ∀ a b : Nat, 1 ≤ a → 1 ≤ b → ∃ d k e m, c.RunsTo ⟨a, []⟩ trace d k ∧
    d.RunsTo ⟨b, []⟩ trace e m ∧ c.RunsTo ⟨a + b, []⟩ trace e (k + m)
  /-- Breakpoints make no difference to what a run comes to in the end. -/
  resumed : ∀ breakpoints d k, c.RunsTo ⟨0, []⟩ trace d k ↔ RunsOn breakpoints trace c d k

/-- A run is the step taken again and again: it ends behind the first step that has a reason to end
it, and where there is none it does not end. -/
theorem iterates (hpc : 0 ≤ c.pc) (trace : Option Bool) : c.Iterates trace where
  ok n := by
    obtain ⟨result, hresult, -⟩ := (counted_step (pc_after hpc n) trace).ok
    exact ⟨result, hresult⟩
  ends hrun limits hlimit n hleast bound hbound := by
    obtain ⟨⟨hn, hends⟩, hleast⟩ := hleast
    have hfirst : ∀ i, 1 ≤ i → i < n → c.GoesOn limits trace 0 i := by
      intro i hi hlt
      refine goesOn_of_not_endsAfter hpc hlimit hi fun j hj hji hearlier => ?_
      have hnj : n ≤ j := hleast ⟨hj, hearlier⟩
      omega
    obtain ⟨hcore, hexecuted, hending⟩ := runFrom_of_first hpc hrun hn hfirst
      (not_goesOn_of_endsAfter hpc hends) hbound #[]
    rw [Nat.zero_add] at hexecuted
    refine ⟨hending, hcore, hexecuted.trans ?_, ?_⟩
    · obtain ⟨m, rfl⟩ := Nat.exists_eq_add_of_le' hn
      cases hhalted : (c.after trace (m + 1)).halted with
      | true =>
        have hbefore := running_of_goesOn hrun fun i hi him => hfirst i hi (Nat.lt_succ_of_le him)
        exact executedIn_of_stopping hpc hbefore hhalted
      | false => exact executedIn_of_running hpc hhalted
    · rw [cycle_after hpc, Core.run, hexecuted]
  unending hrun limits hlimit hnever bound := by
    rcases runFrom_cases hpc hrun limits trace 0 bound #[] with
      ⟨-, -, -, hending⟩ | ⟨n, hn, -, -, hend, -⟩
    · exact hending
    · exact absurd (goesOn_of_not_endsAfter hpc hlimit hn fun i hi _ => hnever i hi) hend
  stopped hhalted limits bound := runFrom_of_halted hhalted
  unique limits d k e m h h' := h.unique hpc h'
  split a b ha hb := by
    refine ⟨_, _, _, _, runsTo_limit hpc ha, runsTo_limit (pc_after hpc a) hb, ?_⟩
    have hab : c.RunsTo ⟨(a + b : Nat), []⟩ trace (c.after trace (a + b))
        (c.executedIn trace (a + b)) :=
      runsTo_limit hpc (Nat.le_add_right_of_le ha)
    rw [after_add, executedIn_add, Int.natCast_add] at hab
    exact hab
  resumed breakpoints d k := by
    rw [runsTo_unlimited_iff hpc]
    constructor
    · rintro ⟨n, hhalted, rfl, rfl⟩
      exact runsOn_of_stopped n hpc hhalted
    · intro h
      exact h.stops hpc

/-- A breakpoint after the first of two instructions. -/
theorem iterates_breakpoint :
    let c := { fresh true with program := programOf [0x00500093, 0x00700113] }
    0 ≤ c.pc ∧ c.Iterates none ∧ (c.run ⟨0, [4]⟩ none 9).core = c.after none 1 ∧
      (c.run ⟨0, []⟩ none 9).executed = 2 ∧ RunsOn [4] none c (c.after none 3) 2 := by
  intro c
  have hpc : 0 ≤ c.pc := Int.le_refl 0
  have hiterates := iterates hpc none
  refine ⟨hpc, hiterates, ?_, by decide +kernel, ?_⟩
  · refine (hiterates.ends rfl ⟨0, [4]⟩ (Int.le_refl 0) 1 ?_ 9 (by omega)).2.1
    exact ⟨⟨Nat.le_refl 1, .inr (.inr (by decide +kernel))⟩, fun n h => h.1⟩
  · refine (hiterates.resumed [4] _ 2).1 ((runsTo_unlimited_iff hpc).2 ⟨3, ?_, rfl, ?_⟩)
    · decide +kernel
    · decide +kernel

end Core

end SingleCycle
