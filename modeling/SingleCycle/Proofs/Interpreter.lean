import SingleCycle.Program.Interpreter
import SingleCycle.Proofs.AcceptedProgram
import SingleCycle.Proofs.History

/-!
# Interpreting source text

A program that is assembled, loaded and stepped does what the interpreter does with its text: the
core and the interpreter go on together, an instruction at a time, and both stop behind the last
one.
-/

namespace SingleCycle

namespace Interpreter

theorem step_of_operation {raws : List (List Char)} {s : Interpreter} {number position : Nat}
    {code : List Char} {o : Operation} (hrun : s.halted = false)
    (hline : (instructionLines 1 raws)[s.position]? = some (number, code))
    (hon : operationOn? code = some o) (hnext : s.next? raws code o = some position) :
    s.step raws = some { s with position, machine := o.effect s.machine } := by
  unfold step
  simp only [hrun, hline, hon, Option.bind_eq_bind, Option.bind_some, hnext]
  rfl

end Interpreter

/-- A core and the interpreter are at the same point. -/
structure Corresponds (c : Core) (s : Interpreter) : Prop where
  /-- The program counter is at the word of the next instruction line. -/
  pc : c.pc = 4 * s.position
  /-- Registers and data memory are equal. -/
  machine : c.machine = s.machine
  /-- Both have stopped, or none has. -/
  halted : c.halted = s.halted

/-! ## One line -/

theorem Operation.ofTokens?_of_reads {m : Mnemonic} {tokens : List (List Char)} {s : Statement}
    (h : Statement.Reads m tokens s) : ofTokens? m tokens = s.operation? := by
  cases h with
  | register hrd hrs1 hrs2 =>
    simp only [ofTokens?, hrd, hrs1, hrs2]
    rfl
  | immediate hrd hrs1 himm hfits =>
    simp only [ofTokens?, integer?, hrd, hrs1, himm]
    rfl
  | lw hrd himm hrs1 =>
    simp only [ofTokens?, integer?, hrd, hrs1, himm]
    rfl
  | sw hrs2 himm hrs1 =>
    simp only [ofTokens?, integer?, hrs1, hrs2, himm]
    rfl
  | branch hrs1 hrs2 =>
    simp only [ofTokens?, hrs1, hrs2]
    rfl
  | lui hrd himm => rfl
  | jal hrd => rfl

section

variable {raws : List (List Char)} {labels : LabelTable} {words : List Word}

/-- The address of a label is four times its place. -/
theorem labelPosition?_of_address? {name : List Char} {value : Int}
    (hlabels : LabelTable.ofLines (sourceLines raws) = .ok labels)
    (hvalue : labels.address? name = some value) :
    ∃ p : Nat, labelPosition? raws name = some p ∧ value = 4 * p ∧
      p ≤ (instructionLines 1 raws).length := by
  obtain ⟨k, raw, hraw, hname⟩ := LabelTable.line_of_address? hlabels hvalue
  have hsome : (raws.findIdx? fun raw => labelName? (codePart raw) = some name).isSome := by
    rw [List.findIdx?_isSome, List.any_eq_true]
    exact ⟨raw, List.mem_of_getElem? hraw, decide_eq_true hname⟩
  obtain ⟨j, hj⟩ := Option.isSome_iff_exists.1 hsome
  obtain ⟨hlt, hfound, -⟩ := List.findIdx?_eq_some_iff_getElem.1 hj
  have haddress := LabelTable.address?_of_getElem? hlabels (List.getElem?_eq_getElem hlt)
    (of_decide_eq_true hfound)
  rw [hvalue] at haddress
  refine ⟨(raws.take j).countP holdsInstruction, ?_, ?_, ?_⟩
  · unfold labelPosition?
    rw [hj, Option.map_some]
  · have hvalue' := Option.some.inj haddress
    omega
  · simpa using (List.take_sublist j raws).countP_le

/-- What the interpreter reads on a line is what the word of the line holds, and where a branch goes
in the text is where its offset leads. -/
theorem Accepted.operation (h : Accepted raws labels words) {i number : Nat} {code : List Char}
    (hline : (instructionLines 1 raws)[i]? = some (number, code))
    (hlui : mnemonicOf? code ≠ some .lui) (hjal : mnemonicOf? code ≠ some .jal) :
    ∃ w m o, words[i]? = some w ∧ Instruction.mnemonic? ⟨w⟩ = some m ∧
      Operation.ofWord? w m = some o ∧ operationOn? code = some o ∧
        ∀ s : Machine, o.taken s = true → ∃ p : Nat, targetOn? raws code = some p ∧
          (4 * i : Int) + immediateB w = 4 * p ∧ p ≤ words.length := by
  obtain ⟨w, m, s, hw, hm, hreads, hencode⟩ := h.line i number code hline
  have hmnemonic := Statement.mnemonic?_of_encode hreads hencode
  have hword := Statement.ofWord?_of_encode hreads hencode
  have hon : operationOn? code = s.operation? := by
    unfold operationOn?
    rw [hm]
    exact Operation.ofTokens?_of_reads hreads
  generalize hoperands : operandsOf code = tokens at hreads
  obtain ⟨o, ho⟩ : ∃ o, s.operation? = some o := by
    cases hreads with
    | lui => exact absurd hm hlui
    | jal => exact absurd hm hjal
    | register => exact ⟨_, rfl⟩
    | immediate => exact ⟨_, rfl⟩
    | lw => exact ⟨_, rfl⟩
    | sw => exact ⟨_, rfl⟩
    | branch => exact ⟨_, rfl⟩
  refine ⟨w, m, o, hw, hmnemonic, hword.trans ho, hon.trans ho, fun machine htaken => ?_⟩
  cases hreads with
  | @branch op a b label rs1 rs2 hrs1 hrs2 =>
    have htarget : labels.address? label = some ((4 * i : Nat) + Instruction.imm ⟨w⟩) := by
      refine Statement.imm_of_encode hencode fun target htarget => ?_
      have hmod := LabelTable.address?_mod_four h.bound htarget
      omega
    have himm : Instruction.imm ⟨w⟩ = immediateB w :=
      Instruction.imm_of_branch _ (Instruction.format?_of_mnemonic hmnemonic)
    rw [himm] at htarget
    obtain ⟨p, hp, hvalue, hle⟩ := labelPosition?_of_address? h.bound htarget
    refine ⟨p, ?_, ?_, ?_⟩
    · unfold targetOn?
      rw [hoperands]
      exact hp
    · omega
    · rw [h.length]
      exact hle
  | register => cases ho; cases htaken
  | immediate => cases ho; cases htaken
  | lw => cases ho; cases htaken
  | sw => cases ho; cases htaken
  | lui => cases ho
  | jal => cases ho

/-! ## One step -/

variable {c : Core} {s : Interpreter}

/-- The word that a core fetches is the one at the place of the interpreter. -/
theorem program_at_position (hsound : c.Sound words) (hpc : c.pc = 4 * s.position)
    (hposition : s.position < 256) :
    c.program[(c.pc / 4).toNat]? = some (words.getD s.position 0) := by
  have hindex : (c.pc / 4).toNat = s.position := by omega
  rw [hsound.program, hindex, Core.getElem?_programOf words hposition]

/-- Behind the last instruction line both stop. -/
theorem step_behind (hsound : c.Sound words)
    (hcorresponds : Corresponds c s) (hrun : s.halted = false) (trace : Option Bool)
    (hlast : s.position = words.length) :
    Corresponds (c.step trace).core { s with halted := true } := by
  have hfetch : ∃ found, c.fetch = .ok (.halt found) := by
    rw [Core.fetch_eq hsound.pc_nonneg]
    by_cases hposition : s.position < 256
    · rw [program_at_position hsound hcorresponds.pc hposition]
      have hnull : words.getD s.position 0 = 0 := by
        rw [List.getD_eq_getElem?_getD, List.getElem?_eq_none (Nat.le_of_eq hlast.symm)]
        rfl
      rw [hnull]
      exact ⟨some 0, rfl⟩
    · have hpc := hcorresponds.pc
      rw [Vector.getElem?_eq_none (by omega)]
      exact ⟨none, rfl⟩
  obtain ⟨found, hfetch⟩ := hfetch
  rw [Core.step_of_halt (hcorresponds.halted.trans hrun) hfetch]
  exact ⟨hcorresponds.pc, hcorresponds.machine, rfl⟩

/-- On an instruction line both do what is written there. -/
theorem step_line (h : Accepted raws labels words) (hsound : c.Sound words)
    (hlength : words.length ≤ programSize) (hcorresponds : Corresponds c s)
    (hrun : s.halted = false) (trace : Option Bool) {number : Nat} {code : List Char}
    (hline : (instructionLines 1 raws)[s.position]? = some (number, code))
    (hlui : mnemonicOf? code ≠ some .lui) (hjal : mnemonicOf? code ≠ some .jal) :
    ∃ s', s.step raws = some s' ∧ Corresponds (c.step trace).core s' ∧
      s'.position ≤ words.length := by
  obtain ⟨w, m, o, hw, hmnemonic, ho, hon, htarget⟩ := h.operation hline hlui hjal
  obtain ⟨hposition, -⟩ := List.getElem?_eq_some_iff.1 hw
  have hsize : words.length ≤ 256 := hlength
  have hfetched : c.program[(c.pc / 4).toNat]? = some w := by
    rw [program_at_position hsound hcorresponds.pc (by omega), List.getD_eq_getElem?_getD, hw]
    rfl
  obtain ⟨-, hexecutes⟩ := Core.step_executes trace (hcorresponds.halted.trans hrun) hsound.zero
    hsound.pc_nonneg hfetched (Instruction.not_halt_of_mnemonic hmnemonic) hmnemonic ho
  have hpc := hexecutes.pc
  rw [hcorresponds.pc, hcorresponds.machine] at hpc
  have hmachine := hexecutes.machine
  rw [hcorresponds.machine] at hmachine
  cases htaken : o.taken s.machine with
  | true =>
    obtain ⟨p, hp, hoffset, hle⟩ := htarget s.machine htaken
    rw [htaken, if_pos rfl] at hpc
    have hnext : s.next? raws code o = some p := by
      unfold Interpreter.next?
      rw [htaken, if_pos rfl, hp]
    refine ⟨{ s with position := p, machine := o.effect s.machine },
      Interpreter.step_of_operation hrun hline hon hnext, ⟨?_, hmachine, ?_⟩, hle⟩
    · show _ = 4 * (p : Int)
      omega
    · exact hexecutes.running.trans hrun.symm
  | false =>
    have hnext : s.next? raws code o = some (s.position + 1) := by
      unfold Interpreter.next?
      rw [htaken]
      rfl
    rw [htaken] at hpc
    refine ⟨{ s with position := s.position + 1, machine := o.effect s.machine },
      Interpreter.step_of_operation hrun hline hon hnext, ⟨?_, hmachine, ?_⟩, hposition⟩
    · show _ = 4 * ((s.position + 1 : Nat) : Int)
      simp only [Bool.false_eq_true, if_false] at hpc
      omega
    · exact hexecutes.running.trans hrun.symm

theorem step_simulates (h : Accepted raws labels words) (hlength : words.length ≤ programSize)
    (hlines : ∀ line ∈ instructionLines 1 raws,
      mnemonicOf? line.2 ≠ some .lui ∧ mnemonicOf? line.2 ≠ some .jal)
    (hsound : c.Sound words) (hcorresponds : Corresponds c s)
    (hposition : s.position ≤ words.length) (trace : Option Bool) :
    ∃ s', s.step raws = some s' ∧ Corresponds (c.step trace).core s' ∧
      s'.position ≤ words.length := by
  cases hrun : s.halted with
  | true =>
    refine ⟨s, if_pos hrun, ?_, hposition⟩
    rw [Core.step_of_halted (hcorresponds.halted.trans hrun)]
    exact hcorresponds
  | false =>
    cases hline : (instructionLines 1 raws)[s.position]? with
    | none =>
      have hlast : s.position = words.length := by
        have hle := List.getElem?_eq_none_iff.1 hline
        rw [← h.length] at hle
        omega
      refine ⟨{ s with halted := true }, ?_, ?_, hposition⟩
      · unfold Interpreter.step
        simp only [hrun, hline]
        rfl
      · exact step_behind hsound hcorresponds hrun trace hlast
    | some line =>
      obtain ⟨hlui, hjal⟩ := hlines line (List.mem_of_getElem? hline)
      exact step_line h hsound hlength hcorresponds hrun trace hline hlui hjal

/-! ## All steps -/

theorem stepAll_simulates (h : Accepted raws labels words) (hlength : words.length ≤ programSize)
    (hlines : ∀ line ∈ instructionLines 1 raws,
      mnemonicOf? line.2 ≠ some .lui ∧ mnemonicOf? line.2 ≠ some .jal)
    (traces : List (Option Bool)) :
    ∀ {c : Core} {s : Interpreter}, c.Sound words → Corresponds c s →
      s.position ≤ words.length → ∃ d s', c.stepAll traces = .ok d ∧
        s.run raws traces.length = some s' ∧ Corresponds d s' := by
  induction traces with
  | nil =>
    intro c s _ hcorresponds _
    exact ⟨c, s, rfl, rfl, hcorresponds⟩
  | cons trace traces ih =>
    intro c s hsound hcorresponds hposition
    obtain ⟨hnext, result, hresult⟩ := hsound.step trace
    obtain ⟨s', hs', hcorresponds', hposition'⟩ :=
      step_simulates h hlength hlines hsound hcorresponds hposition trace
    obtain ⟨d, s'', hd, hs'', hcorresponds''⟩ := ih hnext hcorresponds' hposition'
    refine ⟨d, s'', ?_, ?_, hcorresponds''⟩
    · unfold Core.stepAll
      rw [hresult]
      exact hd
    · show (s.step raws).bind (Interpreter.run raws traces.length) = some s''
      rw [hs']
      exact hs''

end

/-- A program text without upper immediates and jumps that is assembled without a warning, loaded
into any core and stepped any number of times, traced or not, leaves the core where the interpreter
of the text is after as many steps. -/
theorem Core.simulates_text (c : Core) (source : List Char) (words : List Word)
    (traces : List (Option Bool)) (hwords : (Assembly.ofText source).words = .ok words)
    (hskipped : (Assembly.ofText source).skipped = []) (hlength : words.length ≤ programSize)
    (hlines : ∀ line ∈ instructionLines 1 (Text.lines source),
      mnemonicOf? line.2 ≠ some .lui ∧ mnemonicOf? line.2 ≠ some .jal) :
    (c.loadText source).result = .ok words.length ∧
      ∃ d s, (c.loadText source).core.stepAll traces = .ok d ∧
        Interpreter.start.run (Text.lines source) traces.length = some s ∧ Corresponds d s := by
  obtain ⟨labels, haccepted⟩ := Assembly.accepted_of_words hwords hskipped
  obtain ⟨hcore, hresult⟩ := Core.loadText_of_accepted c hwords hskipped hlength
  refine ⟨hresult, ?_⟩
  rw [hcore]
  exact stepAll_simulates haccepted hlength hlines traces (Core.Sound.start c words)
    ⟨rfl, rfl, rfl⟩ (Nat.zero_le _)

/-- Counting down from 3 in a loop, with a label and a comment on one line. -/
theorem Core.simulates_text_loop :
    let source := "addi x5, x0, 3\nloop: # again\naddi x5, x5, -1\nbne x5, x0, loop".toList
    ((fresh false).loadText source).result = .ok 3 ∧
      ∃ d s, ((fresh false).loadText source).core.stepAll (List.replicate 8 none) = .ok d ∧
        Interpreter.start.run (Text.lines source) 8 = some s ∧ Corresponds d s :=
  simulates_text (fresh false) _ [0x00300293, 0xFFF28293, 0xFE029EE3] (List.replicate 8 none)
    rfl rfl (by decide) (by decide)

end SingleCycle
