import SingleCycle.Assembly.Error
import SingleCycle.Assembly.SourceLine

/-!
# Label tables

A label names the address of the instruction after it. Every instruction line takes four bytes,
whether its mnemonic is known or not, so the addresses follow from the lines alone.
-/

namespace SingleCycle

/-- The addresses of labels, in the order of their definitions. -/
abbrev LabelTable := List (List Char × Int)

namespace LabelTable

/-- The address of a label. -/
def address? (table : LabelTable) (name : List Char) : Option Int := table.lookup name

/-- Adds the labels of the lines from an address on. -/
def extend (table : LabelTable) (address : Nat) :
    List (Nat × SourceLine) → Except LineError LabelTable
  | [] => .ok table
  | (_, .blank) :: lines => table.extend address lines
  | (_, .instruction _) :: lines => table.extend (address + 4) lines
  | (number, .label name) :: lines =>
    if name.isEmpty then .error ⟨number, .emptyLabelName⟩
    else if (table.address? name).isSome then .error ⟨number, .duplicateLabel name⟩
    else extend (table ++ [(name, (address : Int))]) address lines

/-- The labels of a program, whose first instruction is at address 0. -/
def ofLines (lines : List (Nat × SourceLine)) : Except LineError LabelTable :=
  extend [] 0 lines

end LabelTable

end SingleCycle
