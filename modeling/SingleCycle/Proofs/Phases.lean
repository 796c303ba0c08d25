import SingleCycle.Core.Attempt
import SingleCycle.Proofs.WholeStep

/-!
# Steps in phases in closed form

What each resumption of an attempt does when nothing comes in between, and the whole step that the
resumptions add up to: the core and the record are those of a step that is not interrupted.
-/

namespace SingleCycle.Core

variable {c : Core} {word : Word}

/-! ## One resumption -/

/-- The core after the decoding phase of a step. -/
def afterDecode (c : Core) (word : Word) : Core :=
  { c with cycle := c.cycle + 1, last := some ⟨word⟩ }

/-- The core after the memory phase of a step. -/
def afterAccess (c : Core) (word : Word) : Core :=
  ((c.afterDecode word).access (c.decoded word).execute).1

/-- The core after the last phase of a step. -/
def afterWriteBack (c : Core) (word : Word) : Core :=
  ((c.afterAccess word).writeBack (c.accessed word)).1

theorem resume_fetched (trace : Bool) : Attempt.resume c (.fetched trace ⟨c.pc, word⟩) =
    ⟨c.afterDecode word, .decoded trace (c.decoded word), none,
      .phase (.decoded (c.decoded word))⟩ := by
  simp only [Attempt.resume, decode_eq]
  rfl

theorem resume_decoded (trace : Bool) (d : Decoded) : Attempt.resume c (.decoded trace d) =
    ⟨c, .executed trace d.execute, none, .phase (.executed d.execute)⟩ := rfl

theorem resume_executed (trace : Bool) :
    Attempt.resume (c.afterDecode word) (.executed trace (c.decoded word).execute) =
      ⟨c.afterAccess word, .accessed trace (c.accessed word), none,
        .phase (.accessed (c.accessed word))⟩ := by
  have haccess : ((c.afterDecode word).access (c.decoded word).execute).2 = c.accessed word := by
    rw [access_eq]
    rfl
  simp only [Attempt.resume, haccess]
  rfl

theorem resume_accessed (trace : Bool) :
    Attempt.resume (c.afterAccess word) (.accessed trace (c.accessed word)) =
      ⟨c.afterWriteBack word, .written trace (c.written word), none,
        .phase (.written (c.written word))⟩ := by
  have hwritten : ((c.afterAccess word).writeBack (c.accessed word)).2 = c.written word := by
    rw [writeBack_eq]
    rfl
  simp only [Attempt.resume, hwritten]
  rfl

/-- The phases together are the record of the step written into the core. -/
theorem afterWriteBack_eq : c.afterWriteBack word = c.commit (c.written word) := by
  unfold afterWriteBack afterAccess
  simp only [writeBack_eq, access_eq, Option.map_map, Function.comp_def, List.append_assoc]
  rfl

theorem resume_written (trace : Bool) (hlog : c.log = if trace then some [] else none) :
    Attempt.resume (c.afterWriteBack word) (.written trace (c.written word)) =
      ⟨c.commit (c.written word), .finished, c.lineOf trace (c.written word),
        .done (some (c.written word))⟩ := by
  have hcycle : ((c.cycle + 1 : Nat) : Int) - 1 = c.cycle := by omega
  rw [afterWriteBack_eq]
  cases trace with
  | false => rfl
  | true =>
    simp only [Attempt.resume, traceLine, commit, lineOf, hlog, if_true, Option.map_some, hcycle]
    rfl

/-! ## All resumptions -/

theorem drainWithin_of_phase {d : Core} {n : Nat} {attempt next : Attempt}
    {line : Option TraceLine} {progress : Progress}
    (hresume : attempt.resume c = ⟨d, next, line, .phase progress⟩) :
    drainWithin (n + 1) c attempt =
      ⟨(drainWithin n d next).core,
        line.toList.map Event.line ++ .phase progress :: (drainWithin n d next).events,
        (drainWithin n d next).result⟩ := by
  rw [drainWithin, hresume]

theorem drainWithin_of_done {d : Core} {n : Nat} {attempt next : Attempt}
    {line : Option TraceLine} {result : Option Written}
    (hresume : attempt.resume c = ⟨d, next, line, .done result⟩) :
    drainWithin (n + 1) c attempt = ⟨d, line.toList.map Event.line, .ok result⟩ := by
  rw [drainWithin, hresume]

/-- What is seen of a step that executes a word. -/
def eventsOf (c : Core) (word : Word) (line : Option TraceLine) : List Event :=
  [.phase (.fetched c.pc (some word)), .phase (.decoded (c.decoded word)),
    .phase (.executed (c.decoded word).execute), .phase (.accessed (c.accessed word)),
    .phase (.written (c.written word))] ++ line.toList.map Event.line

theorem drain_fetched (trace : Bool) (hlog : c.log = if trace then some [] else none) :
    drainWithin 5 c (.fetched trace ⟨c.pc, word⟩) =
      ⟨c.commit (c.written word),
        (c.eventsOf word (c.lineOf trace (c.written word))).tail,
        .ok (some (c.written word))⟩ := by
  rw [drainWithin_of_phase (resume_fetched trace), drainWithin_of_phase (resume_decoded trace _),
    drainWithin_of_phase (resume_executed trace), drainWithin_of_phase (resume_accessed trace),
    drainWithin_of_done (resume_written trace hlog)]
  rfl

variable {trace : Option Bool}

/-! ## First resumptions -/

theorem resume_of_halted (hhalted : c.halted = true) :
    Attempt.resume c (.fresh trace) = ⟨c, .finished, none, .done none⟩ := if_pos hhalted

theorem resume_of_fault {fault : Fault} (hrun : c.halted = false)
    (hfetch : c.fetch = .error fault) :
    Attempt.resume c (.fresh trace) =
      ⟨c.beginLog (c.traces trace), .finished, none, .fault fault⟩ := by
  simp [Attempt.resume, Attempt.start, hrun, hfetch]

theorem resume_of_halt {found : Option Word} (hrun : c.halted = false)
    (hfetch : c.fetch = .ok (.halt found)) :
    Attempt.resume c (.fresh trace) =
      ⟨{ c.beginLog (c.traces trace) with halted := true }, .halting,
        c.haltLine (c.traces trace) found, .phase (.fetched c.pc found)⟩ := by
  simp [Attempt.resume, Attempt.start, hrun, hfetch]

theorem resume_of_execute (hrun : c.halted = false) (hfetch : c.fetch = .ok (.execute word)) :
    Attempt.resume c (.fresh trace) =
      ⟨c.beginLog (c.traces trace), .fetched (c.traces trace) ⟨c.pc, word⟩, none,
        .phase (.fetched c.pc (some word))⟩ := by
  simp [Attempt.resume, Attempt.start, hrun, hfetch]

/-! ## Whole steps -/

theorem drain_of_halted (hhalted : c.halted = true) :
    c.drain (.fresh trace) = ⟨c, [], .ok none⟩ := drainWithin_of_done (resume_of_halted hhalted)

theorem drain_of_fault {fault : Fault} (hrun : c.halted = false)
    (hfetch : c.fetch = .error fault) :
    c.drain (.fresh trace) = ⟨c.beginLog (c.traces trace), [], .error fault⟩ := by
  rw [drain, Attempt.remaining, drainWithin, resume_of_fault hrun hfetch]
  rfl

theorem drain_of_halt {found : Option Word} (hrun : c.halted = false)
    (hfetch : c.fetch = .ok (.halt found)) :
    c.drain (.fresh trace) = ⟨{ c.beginLog (c.traces trace) with halted := true },
      (c.haltLine (c.traces trace) found).toList.map Event.line ++ [.phase (.fetched c.pc found)],
      .ok none⟩ := by
  rw [drain, Attempt.remaining, drainWithin_of_phase (resume_of_halt hrun hfetch)]
  rfl

theorem drain_of_execute (hrun : c.halted = false) (hfetch : c.fetch = .ok (.execute word)) :
    c.drain (.fresh trace) = ⟨(c.beginLog (c.traces trace)).commit (c.written word),
      c.eventsOf word (c.lineOf (c.traces trace) (c.written word)),
      .ok (some (c.written word))⟩ := by
  have hrest : drainWithin 5 (c.beginLog (c.traces trace))
      (.fetched (c.traces trace) ⟨c.pc, word⟩) =
        ⟨(c.beginLog (c.traces trace)).commit (c.written word),
          (c.eventsOf word (c.lineOf (c.traces trace) (c.written word))).tail,
          .ok (some (c.written word))⟩ := drain_fetched (c := c.beginLog (c.traces trace)) _ rfl
  rw [drain, Attempt.remaining, drainWithin_of_phase (resume_of_execute hrun hfetch), hrest]
  rfl

/-- A step in phases that nothing interrupts ends as the whole step does. -/
theorem drain_fresh (c : Core) (trace : Option Bool) :
    (c.drain (.fresh trace)).core = (c.step trace).core ∧
      (c.drain (.fresh trace)).result = (c.step trace).result := by
  rcases c.step_forms trace with ⟨hhalted, hstep⟩ | ⟨hrun, fault, hfetch, hstep⟩ |
    ⟨hrun, found, hfetch, hstep⟩ | ⟨hrun, word, hfetch, hstep⟩
  · rw [hstep, drain_of_halted hhalted]
    exact ⟨rfl, rfl⟩
  · rw [hstep, drain_of_fault hrun hfetch]
    exact ⟨rfl, rfl⟩
  · rw [hstep, drain_of_halt hrun hfetch]
    exact ⟨rfl, rfl⟩
  · rw [hstep, drain_of_execute hrun hfetch]
    exact ⟨rfl, rfl⟩

end SingleCycle.Core
