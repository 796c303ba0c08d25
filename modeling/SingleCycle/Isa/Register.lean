/-!
# Register names

The registers by their roles in the calling convention, as a trace names them.
-/

namespace SingleCycle

/-- The names of the 32 registers, in order. -/
def roleNames : List String :=
  ["zero", "ra", "sp", "gp", "tp", "t0", "t1", "t2", "fp", "s1", "a0", "a1", "a2", "a3", "a4", "a5",
   "a6", "a7", "s2", "s3", "s4", "s5", "s6", "s7", "s8", "s9", "s10", "s11", "t3", "t4", "t5", "t6"]

/-- The role of a register. -/
def roleName (r : BitVec 5) : String := roleNames.getD r.toNat ""

end SingleCycle
