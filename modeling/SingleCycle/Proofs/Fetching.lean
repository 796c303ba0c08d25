import SingleCycle.Proofs.Loading
import SingleCycle.Proofs.WholeStep

/-!
# Where a fetch looks

The program counter is any integer, and only its upper end is checked. Past instruction memory a
core stops. Up to 256 words below it, though, the words are counted from the end of instruction
memory, and a step executes what it finds there; still further below the step fails, and the core
has not stopped.
-/

namespace SingleCycle

namespace Core

/-- A step stops the core, and changes nothing else but the log. -/
structure Halts (c : Core) (trace : Option Bool) : Prop where
  result : (c.step trace).result = .ok none
  core : (c.step trace).core = { c.beginLog (c.traces trace) with halted := true }

/-- A step takes a word up: it executes the word, or stops at it. -/
structure TakesUp (c : Core) (trace : Option Bool) (word : Word) : Prop where
  stopped : word ∈ haltWords → c.Halts trace
  executed : word ∉ haltWords → ∃ w, (c.step trace).result = .ok (some w) ∧ w.pc = c.pc ∧
    w.word = word ∧ (c.step trace).core.last = some ⟨word⟩

/-- What a step finds at the program counter. -/
structure Fetches (c : Core) (trace : Option Bool) : Prop where
  /-- Behind instruction memory there is nothing to execute. -/
  above : 1024 ≤ c.pc → c.Halts trace
  /-- Inside instruction memory the program counter counts bytes, of which a word has four. -/
  inside : 0 ≤ c.pc → c.pc < 1024 →
    ∃ word, c.program[(c.pc / 4).toNat]? = some word ∧ c.TakesUp trace word
  /-- Below instruction memory the words are counted from its end. -/
  below : -1024 ≤ c.pc → c.pc < 0 →
    ∃ word, c.program[(c.pc / 4 + 256).toNat]? = some word ∧ c.TakesUp trace word
  /-- Where this count leaves instruction memory too, the step fails and does not stop the core. -/
  refused : c.pc < -1024 →
    (c.step trace).result = .error (.fetch (.ofIndex (c.pc / 4))) ∧
      (c.step trace).core = c.beginLog (c.traces trace)

variable {c : Core} {trace : Option Bool} {word : Word}

theorem halts_of_fetch {found : Option Word} (hrun : c.halted = false)
    (hfetch : c.fetch = .ok (.halt found)) : c.Halts trace := by
  have hstep : c.step trace = _ := step_of_halt hrun hfetch
  exact ⟨congrArg Step.result hstep, congrArg Step.core hstep⟩

theorem takesUp_of_wordAtPc (hrun : c.halted = false) (hword : c.wordAtPc = .ok (some word)) :
    c.TakesUp trace word := by
  have hfetch : c.fetch = .ok (fetchOf (some word)) := fetch_of_wordAtPc hword
  constructor
  · intro hhalt
    rw [fetchOf_of_halt hhalt] at hfetch
    exact halts_of_fetch hrun hfetch
  · intro hhalt
    rw [fetchOf_of_execute hhalt] at hfetch
    rw [step_of_execute hrun hfetch]
    exact ⟨_, rfl, rfl, rfl, rfl⟩

theorem wordAtPc_below (h : c.pc < -1024) : c.wordAtPc = .error (.fetch (.ofIndex (c.pc / 4))) := by
  unfold wordAtPc
  rw [if_neg (by omega), if_neg (by omega)]

/-- A word of instruction memory is found wherever the program counter selects one. -/
theorem takesUp_inside (trace : Option Bool) (hrun : c.halted = false) (hlow : -1024 ≤ c.pc)
    (hhigh : c.pc < 1024) :
    ∃ word, c.program[(c.pc / 4 % 256).toNat]? = some word ∧ c.TakesUp trace word := by
  have hlt : (c.pc / 4 % 256).toNat < 256 := by omega
  have hfound : c.program[(c.pc / 4 % 256).toNat]? = some c.program[(c.pc / 4 % 256).toNat] :=
    Vector.getElem?_eq_getElem hlt
  refine ⟨_, hfound, takesUp_of_wordAtPc hrun ?_⟩
  rw [wordAtPc_inside hlow hhigh, hfound]

/-- What a step finds at the program counter, whatever integer that is. -/
theorem fetches (c : Core) (trace : Option Bool) (hrun : c.halted = false) :
    c.Fetches trace where
  above h := halts_of_fetch hrun (fetch_of_wordAtPc (wordAtPc_above h))
  inside hlow hhigh := by
    have hmod : c.pc / 4 % 256 = c.pc / 4 := by omega
    obtain ⟨word, hword, htakes⟩ := takesUp_inside trace hrun (by omega) hhigh
    rw [hmod] at hword
    exact ⟨word, hword, htakes⟩
  below hlow hhigh := by
    have hmod : c.pc / 4 % 256 = c.pc / 4 + 256 := by omega
    obtain ⟨word, hword, htakes⟩ := takesUp_inside trace hrun hlow (by omega)
    rw [hmod] at hword
    exact ⟨word, hword, htakes⟩
  refused h := by
    have hfault : c.fetch = .error (.fetch (.ofIndex (c.pc / 4))) := by
      unfold fetch
      rw [wordAtPc_below h]
    rw [step_of_fault hrun hfault]
    exact ⟨rfl, rfl⟩

/-- An address that is no multiple of four, in the second word. -/
theorem fetches_unaligned :
    let c := { fresh false with pc := 7, program := programOf [0x00500093, 0x00700113] }
    c.halted = false ∧ c.Fetches none ∧ (c.step none).core.register 2 = 7 :=
  ⟨rfl, fetches _ none rfl, by decide +kernel⟩

/-- The last address below instruction memory that selects a word, and the one before it. At the one
the first instruction is executed, at the other the step fails and the core has not stopped. -/
theorem fetched_below_start :
    let c := { fresh false with program := programOf [0x00500093] }
    (({ c with pc := -1024 }.step none).core.halted = false ∧
      ({ c with pc := -1024 }.step none).core.pc = 0xFFFFFC04 ∧
      ({ c with pc := -1024 }.step none).core.register 1 = 5) ∧
    ({ c with pc := -1028 }.step none).core.halted = false ∧
      ({ c with pc := -1028 }.step none).result = .error (.fetch .outside) :=
  ⟨by decide +kernel, by decide +kernel, rfl⟩

end Core

end SingleCycle
