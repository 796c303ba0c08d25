import SingleCycle.Core.Record
import SingleCycle.Isa.Disassembly

/-!
# Stage lines

A line of text for each phase of a step, as the console shows them while it executes an instruction
phase by phase.
-/

namespace SingleCycle

/-- A signal as a digit. -/
def signalText (b : Bool) : String := if b then "1" else "0"

/-- The text of the signals. -/
def Control.text (control : Control) : String :=
  "ctrl(alu_src=" ++ signalText control.aluSource
    ++ ", alu2reg=" ++ signalText control.memoryToRegister
    ++ ", wem=" ++ signalText control.memoryWrite
    ++ ", branch=" ++ signalText control.branch
    ++ ", branch_ne=" ++ signalText control.branchNegated
    ++ ", alu_op=" ++ toString control.aluOp.code ++ ")"

/-- What a phase has found. -/
def Progress.detail : Progress → String
  | fetched pc word =>
    "pc=" ++ hexWord (wordOf pc) ++ " instr=" ++ (word.map hexWord).getD "--------"
  | decoded d =>
    padTo 24 d.instruction.text ++ " rs1=" ++ hexWord d.rs1Value ++ " rs2=" ++ hexWord d.rs2Value
      ++ " " ++ d.control.text
  | executed e => "b=" ++ hexWord e.operandB ++ " alu=" ++ hexWord e.aluResult
  | accessed a =>
    match a.access with
    | none => "-"
    | some access =>
      "mem[" ++ toString (memoryIndex access.address).toNat ++ "] addr=" ++ hexWord access.address
        ++ " data=" ++ hexWord access.value
  | written w =>
    (match w.writeBack with
      | none => "-"
      | some (r, value) => registerName r ++ "=" ++ hexWord value)
      ++ " pc=" ++ hexWord w.nextPc

/-- The line of a phase. -/
def Progress.line (progress : Progress) : String :=
  "  " ++ padTo 6 progress.stage.name ++ " " ++ progress.detail

end SingleCycle
