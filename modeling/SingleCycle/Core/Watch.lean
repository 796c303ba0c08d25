import SingleCycle.Core.Attempt

/-!
# Watched steps

A step that is resumed to its end, while an observer takes notes of every phase that is over and
the step pauses behind each one. The observer sees the name of the phase and the record as far as it
is filled, and cannot reach the core. If the clock refuses to pause, the step is given up behind its
first phase.
-/

namespace SingleCycle

/-- How a step is watched. -/
structure Watch (σ : Type) where
  /-- What the observer does to its notes when it is told of a phase. There may be no observer. -/
  notify : Option (σ → Stage → Record → σ)
  /-- The length of a pause. There are no pauses of length zero. -/
  delay : Decimal
  /-- The clock that is asked for the pauses. -/
  clock : Clock

/-- The notes after a phase. -/
def Watch.note {σ : Type} (watch : Watch σ) (notes : σ) (progress : Progress) : σ :=
  match watch.notify with
  | some notify => notify notes progress.stage progress.record
  | none => notes

/-- The number of pauses behind a phase. -/
def Watch.pausesPerPhase {σ : Type} (watch : Watch σ) : Except Refusal Nat :=
  watch.clock.pauses watch.delay

/-- What comes of a watched step. -/
structure Watched (σ : Type) where
  /-- The core at the end. -/
  core : Core
  /-- The lines that were printed. -/
  lines : List TraceLine
  /-- The notes of the observer. -/
  notes : σ
  /-- The number of pauses. -/
  pauses : Nat
  /-- The instruction that was executed. -/
  result : Except Fault (Option Written)

namespace Core

variable {σ : Type}

/-- Resumes a watched attempt a number of times, or until it is over. -/
def watchWithin (watch : Watch σ) : Nat → Core → Attempt → σ → Watched σ
  | 0, c, _, notes => ⟨c, [], notes, 0, .ok none⟩
  | n + 1, c, attempt, notes =>
    let resumed := attempt.resume c
    match resumed.outcome with
    | .fault fault => ⟨resumed.core, resumed.line.toList, notes, 0, .error fault⟩
    | .done result => ⟨resumed.core, resumed.line.toList, notes, 0, .ok result⟩
    | .phase progress =>
      let notes := watch.note notes progress
      match watch.pausesPerPhase with
      | .error refusal => ⟨resumed.core, resumed.line.toList, notes, 0, .error (.pause refusal)⟩
      | .ok pauses =>
        let later := watchWithin watch n resumed.core resumed.attempt notes
        { later with
          lines := resumed.line.toList ++ later.lines
          pauses := pauses + later.pauses }

/-- Executes one instruction under the eyes of an observer with the given notes. -/
def watch (c : Core) (watch : Watch σ) (trace : Option Bool) (notes : σ) : Watched σ :=
  watchWithin watch (Attempt.fresh trace).remaining c (.fresh trace) notes

end Core

end SingleCycle
