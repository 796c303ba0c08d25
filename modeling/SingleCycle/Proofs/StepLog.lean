import SingleCycle.Proofs.InstructionEffect
import SingleCycle.Proofs.WatchedStep
import SingleCycle.Proofs.WordText

/-!
# What a traced step logs

A traced step leaves a text for its access to data memory and one for the register that it writes,
and no other text. The texts say what the record of the step says, and they say it well enough to
be read again: applied to the registers and the data memory that the step has started from, they
give those that it has ended with.
-/

namespace SingleCycle

/-! ## Texts of effects -/

/-- The texts in which the log tells the access to data memory of the step with the record `r`. -/
inductive Record.AccessTexts (r : Record) : List String → Prop
  | store {address value : Word} {a v : String}
      (hopcode : r.instruction.bind Instruction.opcode? = some .store)
      (haddress : r.memoryAddress = some address) (hvalue : r.rs2Value = some value)
      (ha : ShowsWord a address) (hv : ShowsWord v value) : AccessTexts r [v ++ "->mem[" ++ a ++ "]"]
  | load {address : Word} {a v : String}
      (hopcode : r.instruction.bind Instruction.opcode? = some .load)
      (haddress : r.memoryAddress = some address)
      (ha : ShowsWord a address) (hv : ShowsWord v r.memoryValue) :
      AccessTexts r ["mem[" ++ a ++ "]->" ++ v]
  | neither (hstore : r.instruction.bind Instruction.opcode? ≠ some .store)
      (hload : r.instruction.bind Instruction.opcode? ≠ some .load) : AccessTexts r []

/-- The texts in which the log tells the register that the step with the record `r` has written. -/
inductive Record.WriteTexts (r : Record) : List String → Prop
  | written {rd : BitVec 5} {value : Word} {v : String} (hback : r.writeBack = some (rd, value))
      (hv : ShowsWord v value) : WriteTexts r [roleName rd ++ "=" ++ v]
  | unwritten (hback : r.writeBack = none) : WriteTexts r []

/-! ## Reading texts -/

/-- The word that eight digits write from a place on. -/
def wordFrom? (cs : List Char) (i : Nat) : Option Word := readWord? ((cs.drop i).take 8)

/-- The register with a role. -/
def registerOfRole? (role : String) : Option (BitVec 5) :=
  (roleNames.idxOf? role).map (BitVec.ofNat 5)

/-- The entry with a text. There is an equals sign in the entries of registers only, and the other
two have their words at fixed places. -/
def LogEntry.ofText? (text : String) : Option LogEntry :=
  let cs := text.toList
  if '=' ∈ cs then do
    let r ← registerOfRole? (String.ofList (cs.takeWhile (· != '=')))
    let value ← readWord? ((cs.dropWhile (· != '=')).drop 1)
    return .register r value
  else if cs.head? = some 'm' then do
    let address ← wordFrom? cs 4
    let value ← wordFrom? cs 15
    return .load address value
  else do
    let value ← wordFrom? cs 0
    let address ← wordFrom? cs 14
    return .store address value

namespace ShowsWord

variable {text : String} {w : Word}

theorem wordFrom? (h : ShowsWord text w) (front rest : List Char) {i : Nat}
    (hi : front.length = i) : wordFrom? (front ++ (text.toList ++ rest)) i = some w := by
  unfold SingleCycle.wordFrom?
  rw [List.drop_left' hi, List.take_left' h.length, h.readWord?]

theorem equals_not_mem (h : ShowsWord text w) : '=' ∉ text.toList := h.not_mem (by decide)

theorem head?_ne (h : ShowsWord text w) (rest : List Char) :
    (text.toList ++ rest).head? ≠ some 'm' := by
  have hlength := h.length
  have hm : 'm' ∉ text.toList := h.not_mem (by decide)
  cases htext : text.toList with
  | nil => simp [htext] at hlength
  | cons c cs =>
    rw [htext] at hm
    intro hc
    obtain rfl : c = 'm' := Option.some.inj hc
    exact hm List.mem_cons_self

end ShowsWord

theorem registerOfRole?_roleName (r : BitVec 5) : registerOfRole? (roleName r) = some r := by
  revert r
  decide

theorem not_mem_roleName (r : BitVec 5) : ∀ c ∈ (roleName r).toList, (c != '=') = true := by
  have hall : ∀ r : BitVec 5, (roleName r).toList.all (· != '=') = true := by decide +kernel
  exact List.all_eq_true.1 (hall r)

theorem ofText?_register {v : String} {value : Word} (r : BitVec 5) (hv : ShowsWord v value) :
    LogEntry.ofText? (roleName r ++ "=" ++ v) = some (.register r value) := by
  have hchars : (roleName r ++ "=" ++ v).toList = (roleName r).toList ++ '=' :: v.toList := by
    simp
  have hmem : '=' ∈ (roleName r).toList ++ '=' :: v.toList := by simp
  have hname : ((roleName r).toList ++ '=' :: v.toList).takeWhile (· != '=') =
      (roleName r).toList := by
    rw [List.takeWhile_append_of_pos (not_mem_roleName r)]
    simp
  have hrest : ((roleName r).toList ++ '=' :: v.toList).dropWhile (· != '=') = '=' :: v.toList := by
    rw [List.dropWhile_append_of_pos (not_mem_roleName r)]
    simp
  simp only [LogEntry.ofText?, hchars, if_pos hmem, hname, hrest, String.ofList_toList,
    registerOfRole?_roleName, List.drop_succ_cons, List.drop_zero, hv.readWord?]
  rfl

theorem ofText?_load {a v : String} {address value : Word} (ha : ShowsWord a address)
    (hv : ShowsWord v value) :
    LogEntry.ofText? ("mem[" ++ a ++ "]->" ++ v) = some (.load address value) := by
  have hchars : ("mem[" ++ a ++ "]->" ++ v).toList =
      "mem[".toList ++ (a.toList ++ ("]->".toList ++ v.toList)) := by simp
  have hmem : '=' ∉ "mem[".toList ++ (a.toList ++ ("]->".toList ++ v.toList)) := by
    simp [ha.equals_not_mem, hv.equals_not_mem]
  have hhead : ("mem[".toList ++ (a.toList ++ ("]->".toList ++ v.toList))).head? = some 'm' := by
    simp
  have haddress : wordFrom? ("mem[".toList ++ (a.toList ++ ("]->".toList ++ v.toList))) 4 =
      some address := ha.wordFrom? _ _ rfl
  have hvalue : wordFrom? ("mem[".toList ++ (a.toList ++ ("]->".toList ++ v.toList))) 15 =
      some value := by
    have hfront := hv.wordFrom? ("mem[".toList ++ a.toList ++ "]->".toList) [] (i := 15)
      (by simp [ha.length])
    simpa using hfront
  simp only [LogEntry.ofText?, hchars, if_neg hmem, if_pos hhead, haddress, hvalue]
  rfl

theorem ofText?_store {a v : String} {address value : Word} (ha : ShowsWord a address)
    (hv : ShowsWord v value) :
    LogEntry.ofText? (v ++ "->mem[" ++ a ++ "]") = some (.store address value) := by
  have hchars : (v ++ "->mem[" ++ a ++ "]").toList =
      v.toList ++ ("->mem[".toList ++ (a.toList ++ "]".toList)) := by simp
  have hmem : '=' ∉ v.toList ++ ("->mem[".toList ++ (a.toList ++ "]".toList)) := by
    simp [ha.equals_not_mem, hv.equals_not_mem]
  have hvalue : wordFrom? (v.toList ++ ("->mem[".toList ++ (a.toList ++ "]".toList))) 0 =
      some value := hv.wordFrom? [] _ rfl
  have haddress : wordFrom? (v.toList ++ ("->mem[".toList ++ (a.toList ++ "]".toList))) 14 =
      some address := by
    have hfront := ha.wordFrom? (v.toList ++ "->mem[".toList) "]".toList (i := 14)
      (by simp [hv.length])
    simpa using hfront
  simp only [LogEntry.ofText?, hchars, if_neg hmem, if_neg (hv.head?_ne _), hvalue, haddress]
  rfl

/-- Every entry can be read off its text. -/
theorem ofText?_text (e : LogEntry) : LogEntry.ofText? e.text = some e := by
  cases e with
  | register r value => exact ofText?_register r (showsWord_hexWord value)
  | store address value =>
    exact ofText?_store (showsWord_hexWord address) (showsWord_hexWord value)
  | load address value => exact ofText?_load (showsWord_hexWord address) (showsWord_hexWord value)

theorem mapM_ofText?_text (entries : List LogEntry) :
    (entries.map LogEntry.text).mapM LogEntry.ofText? = some entries := by
  rw [Numeral.mapM_eq_some_iff, List.forall₂_map_left_iff, List.forall₂_same]
  intro e _
  exact ofText?_text e

/-! ## Applying entries -/

namespace Machine

/-- Applies the effect that an entry of a log tells of. -/
def apply (s : Machine) : LogEntry → Machine
  | .register r value => s.write r value
  | .store address value => s.store address value
  | .load _ _ => s

/-- Registers and data memory after the step with the texts in its log, from those before it. -/
def recover? (s : Machine) (texts : List String) : Option Machine :=
  (texts.mapM LogEntry.ofText?).map fun entries => entries.foldl apply s

end Machine

namespace Core

variable {c : Core} {word : Word}

theorem entries_of_store (h : Instruction.opcode? ⟨word⟩ = some .store) :
    (c.written word).toAccessed.entries =
      [.store (c.accessed word).aluResult (c.written word).rs2Value] := by
  simp [Accessed.entries, access_of_store h]

theorem entries_of_load (h : Instruction.opcode? ⟨word⟩ = some .load) :
    (c.written word).toAccessed.entries =
      [.load (c.accessed word).aluResult (c.dataAt (c.accessed word).aluResult)] := by
  simp [Accessed.entries, access_of_load h]

theorem entries_of_neither (hstore : Instruction.opcode? ⟨word⟩ ≠ some .store)
    (hload : Instruction.opcode? ⟨word⟩ ≠ some .load) :
    (c.written word).toAccessed.entries = [] := by
  simp [Accessed.entries, access_of_neither hstore hload]

/-- The entries of a step lead from the registers and the data memory before it to those after
it. -/
theorem foldl_entries : (c.written word).entries.foldl Machine.apply c.machine =
    (c.commit (c.written word)).machine := by
  rw [Written.entries, List.foldl_append]
  by_cases hstore : Instruction.opcode? ⟨word⟩ = some .store
  · have hback : (c.written word).writeBack = none := by
      rw [writeBack_written, if_pos (.inl hstore)]
    rw [entries_of_store hstore, hback,
      machine_commit_store (Instruction.memoryWrite_iff.2 hstore)]
    rfl
  · have hread : (c.written word).toAccessed.entries.foldl Machine.apply c.machine = c.machine := by
      by_cases hload : Instruction.opcode? ⟨word⟩ = some .load
      · rw [entries_of_load hload]
        rfl
      · rw [entries_of_neither hstore hload]
        rfl
    rw [hread, machine_commit_of_no_store (Instruction.memoryWrite_eq_false_iff.2 hstore)]
    cases (c.written word).writeBack with
    | none => rfl
    | some entry => rfl

theorem accessTexts_written : (Record.ofWritten (c.written word)).AccessTexts
    ((c.written word).toAccessed.entries.map LogEntry.text) := by
  by_cases hstore : Instruction.opcode? ⟨word⟩ = some .store
  · obtain ⟨haddress, -, -⟩ := Record.ofAccessed_access (access_of_store (c := c) hstore)
    rw [entries_of_store hstore]
    exact .store hstore haddress rfl (showsWord_hexWord _) (showsWord_hexWord _)
  by_cases hload : Instruction.opcode? ⟨word⟩ = some .load
  · obtain ⟨haddress, -, hvalue⟩ := Record.ofAccessed_access (access_of_load (c := c) hload)
    have hshown : ShowsWord (hexWord (c.dataAt (c.accessed word).aluResult))
        (Record.ofWritten (c.written word)).memoryValue := by
      show ShowsWord _ (Record.ofAccessed (c.accessed word)).memoryValue
      rw [hvalue]
      exact showsWord_hexWord _
    rw [entries_of_load hload]
    exact .load hload haddress (showsWord_hexWord _) hshown
  · rw [entries_of_neither hstore hload]
    exact .neither hstore hload

theorem writeTexts_of (w : Written) : (Record.ofWritten w).WriteTexts
    ((match w.writeBack with
      | some (r, value) => [LogEntry.register r value]
      | none => []).map LogEntry.text) := by
  cases hback : w.writeBack with
  | none => exact .unwritten hback
  | some entry => exact .written hback (showsWord_hexWord _)

/-! ## Traced steps -/

/-- The texts of the log, if one is kept. -/
def logTexts (c : Core) : Option (List String) := c.log.map (·.map LogEntry.text)

/-- The log of the step from the core `c` to the core `d` consists of the texts, which tell what the
record `r` of the step says. -/
structure Tells (c d : Core) (r : Record) (texts : List String) : Prop where
  log : d.logTexts = some texts
  /-- First comes the access to data memory and then the register, and nothing else. -/
  effects : ∃ access write, texts = access ++ write ∧ r.AccessTexts access ∧ r.WriteTexts write
  /-- The texts lead from the registers and the data memory before the step to those after it. -/
  recovers : c.machine.recover? texts = some d.machine

/-- Every traced step that executes a word logs its effects, and shows its log at the end of the line
that it prints. A step in phases that nothing interrupts does the same. -/
theorem traced_step_tells (c : Core) (trace : Option Bool) (word : Word)
    (htrace : c.traces trace = true) (hrun : c.halted = false)
    (hfetch : c.fetch = .ok (.execute word)) :
    ∃ w texts, (c.step trace).result = .ok (some w) ∧ w.word = word ∧
      c.Tells (c.step trace).core (.ofWritten w) texts ∧
      (c.step trace).line.map TraceLine.text = some (addressText c.pc ++ ": " ++
        padTo 30 w.instruction.text ++ " # [" ++ toString c.cycle ++ "] " ++
          " ".intercalate texts) ∧
      (c.drain (.fresh trace)).core = (c.step trace).core ∧
      (c.drain (.fresh trace)).result = (c.step trace).result ∧
      (c.drain (.fresh trace)).lines = (c.step trace).line.toList := by
  have hstep : c.step trace = _ := step_of_execute hrun hfetch
  have hlines : (c.drain (.fresh trace)).lines = (c.step trace).line.toList := by
    rw [hstep, (seen_of_execute hrun hfetch).2]
  obtain ⟨hcore, hresult⟩ := drain_fresh c trace
  have hlog : (c.step trace).core.log = some (c.written word).entries := by
    rw [hstep, htrace]
    rfl
  have hmachine : (c.step trace).core.machine = (c.commit (c.written word)).machine := by
    rw [hstep]
    rfl
  refine ⟨c.written word, (c.written word).entries.map LogEntry.text, ?_, rfl, ?_, ?_, hcore,
    hresult, hlines⟩
  · rw [hstep]
  · exact {
      log := by
        rw [logTexts, hlog]
        rfl
      effects := ⟨_, _, List.map_append, accessTexts_written, writeTexts_of _⟩
      recovers := by
        rw [Machine.recover?, mapM_ofText?_text, hmachine, ← foldl_entries]
        rfl }
  · rw [hstep, htrace]
    rfl

/-- A load from an address beyond data memory. -/
theorem traced_step_tells_load :
    let c := { fresh true with program := programOf [0x08402103] }
    c.traces none = true ∧ c.halted = false ∧ c.fetch = .ok (.execute 0x08402103) ∧
      ∃ w, (c.step none).result = .ok (some w) ∧
        c.Tells (c.step none).core (.ofWritten w) ["mem[00000084]->000000af", "sp=000000af"] := by
  intro c
  have hfetch : c.fetch = .ok (.execute 0x08402103) :=
    fetch_of_nextWord? (by decide) (by decide +kernel)
  obtain ⟨w, texts, hresult, -, htells, -⟩ := traced_step_tells c none _ rfl rfl hfetch
  have htexts : (c.step none).core.logTexts =
      some ["mem[00000084]->000000af", "sp=000000af"] := by decide +kernel
  obtain rfl := Option.some.inj (htells.log.symm.trans htexts)
  exact ⟨rfl, rfl, hfetch, w, hresult, htells⟩

end Core

end SingleCycle
