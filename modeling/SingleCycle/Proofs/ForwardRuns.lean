import Mathlib.Data.Nat.Find
import SingleCycle.Proofs.InstructionEffect
import SingleCycle.Proofs.RunEnds

/-!
# Programs that go forward

Where every branch has an offset of at least one word, a run comes to an end. The words that it
executes have increasing numbers, because a step goes on to a later word whether its branch is taken
or not, and there are no more than 256 of them. The offset is signed and instruction memory lies far
below the end of the addresses, so a step does not wrap around, and nothing writes instruction
memory.
-/

namespace SingleCycle

namespace Core

variable {c d e : Core} {trace : Option Bool} {word : Word}

/-- The number of the word at the program counter. -/
def place (c : Core) : Nat := (c.pc / 4).toNat

/-- Every branch in instruction memory, be its function field used or not, goes at least one word
forward. -/
def BranchesForward (c : Core) : Prop :=
  ∀ word ∈ c.program, Instruction.opcode? ⟨word⟩ = some .branch → 4 ≤ Instruction.imm ⟨word⟩

/-- There are no branches in instruction memory. -/
def Straight (c : Core) : Prop := ∀ word ∈ c.program, Instruction.opcode? ⟨word⟩ ≠ some .branch

/-- A program ends at a place: it has a word there at which a core stops, or no word any more. -/
def EndsAt (c : Core) (k : Nat) : Prop := ∀ word, c.program[k]? = some word → word ∈ haltWords

/-- The null words behind a program are no branches. -/
theorem branchesForward_of_programOf {words : List Word} (hprogram : c.program = programOf words)
    (h : ∀ word ∈ words, Instruction.opcode? ⟨word⟩ = some .branch →
      4 ≤ Instruction.imm ⟨word⟩) : c.BranchesForward := by
  intro word hword hopcode
  rw [hprogram] at hword
  obtain ⟨k, hget⟩ := Vector.mem_iff_getElem?.1 hword
  obtain ⟨hk, -⟩ := Vector.getElem?_eq_some_iff.1 hget
  rw [getElem?_programOf words hk] at hget
  obtain rfl : words.getD k 0 = word := Option.some.inj hget
  rw [List.getD_eq_getElem?_getD] at hopcode ⊢
  cases hfound : words[k]? with
  | some word =>
    rw [hfound] at hopcode
    exact h word (List.mem_of_getElem? hfound) hopcode
  | none =>
    rw [hfound] at hopcode
    cases hopcode

theorem endsAt_place : c.EndsAt c.place ↔ c.nextWord? = none := by
  simp [EndsAt, place, nextWord?, Option.filter_eq_none_iff]

theorem program_of_nextWord? (h : c.nextWord? = some word) :
    c.program[c.place]? = some word :=
  (Option.filter_eq_some_iff.1 h).1

/-- A core that executes a word has not left instruction memory. -/
theorem place_lt_of_nextWord? (h : c.nextWord? = some word) : c.place < 256 :=
  (Vector.getElem?_eq_some_iff.1 (program_of_nextWord? h)).1

theorem mem_of_nextWord? (h : c.nextWord? = some word) : word ∈ c.program :=
  Vector.mem_of_getElem? (program_of_nextWord? h)

/-! ## Steps forward -/

/-- The core `d` is what `n` steps forward have made of the running core `c`. -/
structure Advances (c d : Core) (n : Nat) : Prop where
  running : d.halted = false
  pc : 0 ≤ d.pc
  program : d.program = c.program
  place : c.place + n ≤ d.place
  straight : c.Straight → d.place = c.place + n

theorem Advances.trans {m n : Nat} (h : Advances c d m) (h' : Advances d e n) :
    Advances c e (m + n) where
  running := h'.running
  pc := h'.pc
  program := h'.program.trans h.program
  place := by
    have := h.place
    have := h'.place
    omega
  straight hstraight := by
    have hsame : d.Straight := by
      unfold Straight
      rw [h.program]
      exact hstraight
    have := h.straight hstraight
    have := h'.straight hsame
    omega

theorem Advances.forward {n : Nat} (h : Advances c d n) (hforward : c.BranchesForward) :
    d.BranchesForward := by
  unfold BranchesForward
  rw [h.program]
  exact hforward

/-- An offset of four bytes or more that fits a word leads to a later word. -/
theorem advances_step (hrun : c.halted = false) (hpc : 0 ≤ c.pc) (hforward : c.BranchesForward)
    (hword : c.nextWord? = some word) : Advances c (c.step trace).core 1 := by
  have hstep : c.step trace = _ := step_of_execute hrun (fetch_of_nextWord? hpc hword)
  have hmem := mem_of_nextWord? hword
  have hlt : (c.pc / 4).toNat < 256 := place_lt_of_nextWord? hword
  have htarget : (c.step trace).core.pc = (c.pc + if (c.accessed word).taken then
      Instruction.imm ⟨word⟩ else 4) % 2 ^ 32 / 4 * 4 := by
    rw [hstep]
    exact pc_commit
  have hplace : (c.step trace).core.place = ((c.step trace).core.pc / 4).toNat := rfl
  have hplace' : c.place = (c.pc / 4).toNat := rfl
  exact {
    running := by
      rw [hstep]
      exact hrun
    pc := by
      rw [htarget]
      omega
    program := by
      rw [hstep]
      rfl
    place := by
      cases htaken : (c.accessed word).taken with
      | false =>
        rw [htaken, if_neg Bool.false_ne_true] at htarget
        omega
      | true =>
        have hopcode : Instruction.opcode? ⟨word⟩ = some .branch := by
          refine Decidable.byContradiction fun hother => ?_
          rw [taken_accessed_eq_false hother] at htaken
          cases htaken
        have hleast := hforward word hmem hopcode
        have hmost := (Instruction.imm_range ⟨word⟩).2
        rw [htaken, if_pos rfl] at htarget
        omega
    straight := by
      intro hstraight
      rw [taken_accessed_eq_false (hstraight word hmem), if_neg Bool.false_ne_true] at htarget
      omega }

/-- As long as there is a word to execute, the core advances. -/
theorem advances_after (hrun : c.halted = false) (hpc : 0 ≤ c.pc) (hforward : c.BranchesForward)
    {n : Nat} (h : ∀ i < n, (c.after trace i).nextWord? ≠ none) :
    Advances c (c.after trace n) n := by
  induction n with
  | zero => exact ⟨hrun, hpc, rfl, Nat.le_refl _, fun _ => rfl⟩
  | succ n ih =>
    have hbefore : Advances c (c.after trace n) n :=
      ih fun i hi => h i (Nat.lt_succ_of_lt hi)
    obtain ⟨word, hword⟩ := Option.ne_none_iff_exists'.1 (h n (Nat.lt_succ_self n))
    rw [after_succ]
    exact hbefore.trans
      (advances_step hbefore.running hbefore.pc (hbefore.forward hforward) hword)

/-! ## Runs forward -/

/-- There are no more than 256 words to execute. -/
theorem exists_end (hrun : c.halted = false) (hpc : 0 ≤ c.pc) (hforward : c.BranchesForward)
    (trace : Option Bool) :
    ∃ k, (c.after trace k).nextWord? = none ∧ ∀ i < k, (c.after trace i).nextWord? ≠ none := by
  have hend : ∃ k, (c.after trace k).nextWord? = none := by
    refine Classical.byContradiction fun hnever => ?_
    have hgoes : ∀ k, (c.after trace k).nextWord? ≠ none := not_exists.1 hnever
    have hplace := (advances_after hrun hpc hforward fun i (_ : i < 256) => hgoes i).place
    obtain ⟨word, hword⟩ := Option.ne_none_iff_exists'.1 (hgoes 256)
    have hlt := place_lt_of_nextWord? hword
    omega
  exact ⟨Nat.find hend, Nat.find_spec hend, fun i hi => Nat.find_min hend hi⟩

/-- Without branches, a program ends where the core finds nothing to execute. -/
theorem Advances.endsAt_iff {n : Nat} (h : Advances c d n) (hstraight : c.Straight) :
    c.EndsAt (c.place + n) ↔ d.nextWord? = none := by
  rw [← endsAt_place, EndsAt, EndsAt, h.program, h.straight hstraight]

/-- A run without limit and breakpoints over a program whose branches go forward. It leaves the core
`d` and has executed `k` instructions. -/
structure RunsForward (c : Core) (trace : Option Bool) (d : Core) (k : Nat) : Prop where
  /-- The run is over after one step more than it has executed instructions, the one that stops the
  core. -/
  ends : ∀ bound, k < bound → (c.run ⟨0, []⟩ trace bound).ending = .finished ∧
    (c.run ⟨0, []⟩ trace bound).core = d ∧ (c.run ⟨0, []⟩ trace bound).executed = k
  /-- It has executed no more instructions than there are words from the program counter on. -/
  few : k ≤ 256 - c.place
  /-- Each of its steps but the last one has executed the instruction at its program counter. -/
  executes : ∀ i < k, ∃ w, ((c.after trace i).step trace).result = .ok (some w) ∧
    w.pc = (c.after trace i).pc
  /-- The words of these instructions have increasing numbers. -/
  ascending : ∀ i < k, (c.after trace i).place < (c.after trace (i + 1)).place
  /-- The core has stopped where the program ends, at the place after the last instruction. -/
  stopped : d.halted = true ∧ d.pc = (c.after trace k).pc ∧ d.program = c.program ∧
    d.EndsAt d.place
  /-- Without branches it has executed the words up to the next end of the program. -/
  straight : c.Straight → IsLeast {n | c.EndsAt (c.place + n)} k

/-- A program whose branches go forward comes to an end, whatever registers and data memory
hold. -/
theorem runsForward (c : Core) (trace : Option Bool) (hrun : c.halted = false) (hpc : 0 ≤ c.pc)
    (hforward : c.BranchesForward) : ∃ d k, c.RunsForward trace d k := by
  obtain ⟨k, hend, hbefore⟩ := exists_end hrun hpc hforward trace
  have hadvances : ∀ i ≤ k, Advances c (c.after trace i) i := fun i hi =>
    advances_after hrun hpc hforward fun j hj => hbefore j (Nat.lt_of_lt_of_le hj hi)
  have hlast : Advances c (c.after trace k) k := hadvances k (Nat.le_refl k)
  obtain ⟨found, hfetch⟩ := fetch_of_no_nextWord hlast.pc hend
  have hstop : c.after trace (k + 1) = _ :=
    (after_succ k).trans (congrArg Step.core (step_of_halt hlast.running hfetch))
  have hhalted : (c.after trace (k + 1)).halted = true := by rw [hstop]
  exact ⟨c.after trace (k + 1), k, {
    ends := fun bound hbound => run_of_stopping hpc hlast.running hhalted hbound
    few := by
      rcases Nat.eq_zero_or_pos k with rfl | hk
      · exact Nat.zero_le _
      · -- the last word that is executed still lies in instruction memory
        obtain ⟨m, rfl⟩ := Nat.exists_eq_add_of_le' hk
        obtain ⟨word, hword⟩ := Option.ne_none_iff_exists'.1 (hbefore m (Nat.lt_succ_self m))
        have hlt := place_lt_of_nextWord? hword
        have hplace := (hadvances m (Nat.le_succ m)).place
        omega
    executes := by
      intro i hi
      obtain ⟨word, hword⟩ := Option.ne_none_iff_exists'.1 (hbefore i hi)
      have hat := hadvances i (Nat.le_of_lt hi)
      exact ⟨_, result_of_nextWord? hat.running hat.pc hword, rfl⟩
    ascending := by
      intro i hi
      obtain ⟨word, hword⟩ := Option.ne_none_iff_exists'.1 (hbefore i hi)
      have hat := hadvances i (Nat.le_of_lt hi)
      rw [after_succ]
      exact (advances_step hat.running hat.pc (hat.forward hforward) hword).place
    stopped := by
      rw [hstop]
      exact ⟨rfl, rfl, hlast.program, endsAt_place.2 hend⟩
    straight := by
      intro hstraight
      refine ⟨(hlast.endsAt_iff hstraight).2 hend, fun n hn => Nat.le_of_not_lt fun hlt => ?_⟩
      exact hbefore n hlt (((hadvances n (Nat.le_of_lt hlt)).endsAt_iff hstraight).1 hn) }⟩

/-- A branch over one word, from an address that is no multiple of four. -/
theorem runsForward_skip :
    let c := { fresh false with
      pc := 2
      program := programOf [0x00500093, 0x00000463, 0x00700093, 0x00100113] }
    (c.halted = false ∧ 0 ≤ c.pc ∧ c.BranchesForward) ∧ (∃ d k, c.RunsForward none d k) ∧
      (c.run ⟨0, []⟩ none 4).executed = 3 := by
  intro c
  have hpc : 0 ≤ c.pc := Int.natCast_nonneg 2
  have hforward : c.BranchesForward := by
    refine branchesForward_of_programOf rfl ?_
    simp only [List.forall_mem_cons]
    exact ⟨by decide, by decide, by decide, by decide, nofun⟩
  exact ⟨⟨rfl, hpc, hforward⟩, runsForward c none rfl hpc hforward, by decide +kernel⟩

end Core

end SingleCycle
