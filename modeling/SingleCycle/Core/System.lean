import Mathlib.Algebra.Group.Int.Defs
import SingleCycle.Core.Attempt
import SingleCycle.Core.Edit
import SingleCycle.Core.Run

/-!
# A core in use

A core is edited, stepped and run, and steps in phases are opened, resumed and given up in between,
in any order. A history of this is a list of requests. It is kept what the last load that succeeded
has loaded, and what has been stored since.
-/

namespace SingleCycle

/-! ## Requests -/

/-- What can be asked of a core from outside. The program counter cannot be assigned. -/
inductive Request where
  /-- Edits the core. -/
  | edit (edit : Edit)
  /-- Sets whether steps are traced that do not say so themselves. -/
  | setTracing (tracing : Bool)
  /-- Executes one instruction. -/
  | step (trace : Option Bool)
  /-- Executes one instruction in phases. An observer that acts on the core in between is an attempt
  of its own. -/
  | notify (trace : Option Bool)
  /-- Runs the core for at most `bound` steps. -/
  | run (limits : RunLimits) (trace : Option Bool) (bound : Nat)
  /-- Opens an attempt. -/
  | openAttempt (trace : Option Bool)
  /-- Resumes an attempt up to the end of its next phase. -/
  | resume (attempt : Nat)
  /-- Gives an attempt up. -/
  | abandon (attempt : Nat)
  deriving Repr, DecidableEq

/-- A core, the attempts that were opened on it, and the words of the last load that succeeded. -/
structure System where
  /-- The core. -/
  core : Core
  /-- The attempts, in the order in which they were opened. -/
  attempts : List Attempt
  /-- The words of the last load that succeeded, none before the first. -/
  loaded : List Word

namespace System

/-- A fresh core. -/
def fresh (tracing : Bool) : System := ⟨.fresh tracing, [], []⟩

/-- Carries out an edit, and remembers the words of a load that reports success. -/
def edit (s : System) (e : Edit) : System :=
  let edited := s.core.edit e
  { s with core := edited.core, loaded := (e.words? edited.reply).getD s.loaded }

/-- Carries out a request. One for an attempt that does not exist changes nothing. -/
def perform (s : System) : Request → System
  | .edit e => s.edit e
  | .setTracing tracing => { s with core := { s.core with tracing } }
  | .step trace => { s with core := (s.core.step trace).core }
  | .notify trace => { s with core := (s.core.drain (.fresh trace)).core }
  | .run limits trace bound => { s with core := (s.core.run limits trace bound).core }
  | .openAttempt trace => { s with attempts := s.attempts ++ [.fresh trace] }
  | .resume k =>
    match s.attempts[k]? with
    | some attempt =>
      let resumed := attempt.resume s.core
      { s with core := resumed.core, attempts := s.attempts.set k resumed.attempt }
    | none => s
  | .abandon k => { s with attempts := s.attempts.set k .finished }

/-- Carries out requests in order. -/
def performAll (s : System) (requests : List Request) : System := requests.foldl perform s

/-- What comes of a request if it resumes the attempt with the number `k`. -/
def outcome? (s : System) (k : Nat) : Request → Option Outcome
  | .resume j =>
    if j = k then s.attempts[k]?.map fun attempt => (attempt.resume s.core).outcome else none
  | _ => none

/-- What comes of resuming the attempt with the number `k`, each time that it is resumed. -/
def outcomesOf (k : Nat) : System → List Request → List Outcome
  | _, [] => []
  | s, request :: requests =>
    (s.outcome? k request).toList ++ outcomesOf k (s.perform request) requests

/-- What can be done to a core: a request, or an assignment to its program counter. -/
inductive Action where
  | request (request : Request)
  | setPc (pc : Int)
  deriving Repr, DecidableEq

/-- Does something to a core. -/
def act (s : System) : Action → System
  | .request request => s.perform request
  | .setPc pc => { s with core := { s.core with pc } }

/-- Carries out actions one after the other. -/
def actAll (s : System) (actions : List Action) : System := actions.foldl act s

end System

/-! ## Stores -/

/-- A store. Address and value are any integers. -/
structure Store where
  address : Int
  value : Int
  deriving Repr, DecidableEq

/-- The number of the data word at an address: four addresses share a word, and after 32 words they
begin anew. -/
def wordNumber (address : Int) : Int := address / 4 % 32

/-- The data word at an address after a reset. -/
def seedAt (address : Int) : Int := [5, 0xAF, 0xD2, 3].getD (wordNumber address).toNat 0

/-- The data word at an address after a reset and the given stores, the last of them at the end. -/
def contentsAt (stores : List Store) (address : Int) : Int :=
  match stores.reverse.find? fun s => wordNumber s.address = wordNumber address with
  | some s => s.value % 2 ^ 32
  | none => seedAt address

/-- The stores since the last reset or load after an edit with the given reply, from those before
it. -/
def Edit.storesAfter (stores : List Store) : Edit → Edit.Reply → List Store
  | .reset, _ => []
  | .store address value, _ => stores ++ [⟨address, value⟩]
  | _, .loaded _ (.ok _) => []
  | _, _ => stores

/-- The store that an instruction makes, if its opcode is that of stores. -/
def Executed.stores (e : Executed) : List Store :=
  if e.instruction.opcode? = some .store then
    [⟨e.rs1Value.toNat + e.instruction.imm, e.rs2Value.toNat⟩]
  else []

/-- The store that a step with the given result has made. -/
def storesOf : Except Fault (Option Written) → List Store
  | .ok (some w) => w.toExecuted.stores
  | _ => []

/-- The stores that a number of steps make. -/
def Core.storesIn (c : Core) (trace : Option Bool) : Nat → List Store
  | 0 => []
  | n + 1 => storesOf (c.step trace).result ++ (c.step trace).core.storesIn trace n

/-- The store that resuming an attempt makes. -/
def Attempt.stores : Attempt → List Store
  | executed _ e => e.stores
  | _ => []

namespace System

/-- The stores since the last reset or load after an action, from those before it. A run makes the
stores of as many steps as it executes instructions. -/
def storesAfter (s : System) (stores : List Store) : Action → List Store
  | .request (.edit e) => e.storesAfter stores (s.core.edit e).reply
  | .request (.step trace) => stores ++ storesOf (s.core.step trace).result
  | .request (.notify trace) => stores ++ storesOf (s.core.drain (.fresh trace)).result
  | .request (.run limits trace bound) =>
    stores ++ s.core.storesIn trace (s.core.run limits trace bound).executed
  | .request (.resume k) => stores ++ (s.attempts[k]?.map Attempt.stores).getD []
  | _ => stores

/-- The stores since the last reset or load after any actions, from those before them. -/
def storesSince : System → List Store → List Action → List Store
  | _, stores, [] => stores
  | s, stores, action :: actions =>
    storesSince (s.act action) (s.storesAfter stores action) actions

end System

end SingleCycle
