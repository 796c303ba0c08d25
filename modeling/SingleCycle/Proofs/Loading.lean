import SingleCycle.Core.Edit

/-!
# Loading in closed form

A load succeeds exactly when its program can be read and fits. Then instruction memory holds the
words of the program and nothing else, and the core is back at its start; else the core is as it
was.
-/

namespace SingleCycle

namespace Core

/-- The words that a load puts into instruction memory, if it succeeds. -/
def wordsToLoad? (reading : Reading) : Option (List Word) :=
  match reading.words with
  | .ok words => if words.length ≤ programSize then some words else none
  | .error _ => none

theorem getElem?_programOf (words : List Word) {k : Nat} (hk : k < 256) :
    (programOf words)[k]? = some (words.getD k 0) := by
  unfold programOf
  rw [Vector.getElem?_ofFn, dif_pos hk]

theorem wordsToLoad?_eq_some {reading : Reading} {words : List Word} :
    wordsToLoad? reading = some words ↔
      reading.words = .ok words ∧ words.length ≤ programSize := by
  unfold wordsToLoad?
  cases reading.words with
  | error e => simp
  | ok ws =>
    by_cases hlen : ws.length ≤ programSize
    · simp only [if_pos hlen, Option.some.injEq, Except.ok.injEq]
      constructor
      · rintro rfl
        exact ⟨rfl, hlen⟩
      · exact And.left
    · simp only [if_neg hlen, Except.ok.injEq]
      constructor
      · rintro ⟨⟩
      · rintro ⟨rfl, h⟩
        exact absurd h hlen

/-- A load of a program that can be read. -/
theorem loadReading_of_ok (c : Core) {reading : Reading} {words : List Word}
    (h : reading.words = .ok words) :
    c.loadReading reading = if words.length ≤ programSize then
      ⟨{ c.reset with program := programOf words },
        LogRecord.ofRows reading.skipped ++ [.loaded words.length], .ok words.length⟩
    else ⟨c, LogRecord.ofRows reading.skipped, .error (.tooLong words.length)⟩ := by
  by_cases hlen : words.length ≤ programSize
  · have hload : c.loadWords words = .ok { c.reset with program := programOf words } :=
      if_neg (Nat.not_lt.2 hlen)
    unfold loadReading
    simp only [h, hload, if_pos hlen]
  · have hload : c.loadWords words = .error (.tooLong words.length) :=
      if_pos (Nat.lt_of_not_le hlen)
    unfold loadReading
    simp only [h, hload, if_neg hlen]

/-- A load of a program that cannot be read. -/
theorem loadReading_of_error (c : Core) {reading : Reading} {error : ReadError}
    (h : reading.words = .error error) :
    c.loadReading reading = ⟨c, LogRecord.ofRows reading.skipped, .error (.read error)⟩ := by
  unfold loadReading
  simp only [h]

/-- A load that succeeds. -/
theorem loadReading_of_some (c : Core) {reading : Reading} {words : List Word}
    (h : wordsToLoad? reading = some words) :
    (c.loadReading reading).core = { c.reset with program := programOf words } ∧
      (c.loadReading reading).result = .ok words.length := by
  obtain ⟨hwords, hlen⟩ := wordsToLoad?_eq_some.1 h
  rw [c.loadReading_of_ok hwords, if_pos hlen]
  exact ⟨rfl, rfl⟩

/-- A load that fails. -/
theorem loadReading_of_none (c : Core) {reading : Reading} (h : wordsToLoad? reading = none) :
    (c.loadReading reading).core = c ∧ ∃ error, (c.loadReading reading).result = .error error := by
  cases hwords : reading.words with
  | error error =>
    rw [c.loadReading_of_error hwords]
    exact ⟨rfl, _, rfl⟩
  | ok words =>
    have hlong : ¬ words.length ≤ programSize := by
      intro hlen
      rw [wordsToLoad?_eq_some.2 ⟨hwords, hlen⟩] at h
      cases h
    rw [c.loadReading_of_ok hwords, if_neg hlong]
    exact ⟨rfl, _, rfl⟩

@[simp]
theorem loadProgram_eq (c : Core) (program : Loadable) :
    c.loadProgram program = c.loadReading program.reading := by
  cases program <;> rfl

/-- A file holds an image or a text, as its name tells. -/
@[simp]
theorem loadFile_eq (c : Core) (name : String) (bytes : List UInt8) :
    c.loadFile name bytes = c.loadReading (.ofFile name bytes) := by
  unfold loadFile Reading.ofFile
  by_cases himage : Reading.isImageName name = true
  · rw [if_pos himage, if_pos himage]
    rfl
  · rw [if_neg himage, if_neg himage]
    cases Utf8.decode bytes with
    | ok source => rfl
    | error fault => rfl

/-- An edit that loads something. -/
theorem edit_of_reading (c : Core) {e : Edit} {reading : Reading} (h : e.reading? = some reading) :
    c.edit e = ⟨(c.loadReading reading).core,
      .loaded (c.loadReading reading).log (c.loadReading reading).result⟩ := by
  cases e with
  | load program =>
    obtain rfl := Option.some.inj h
    simp [edit]
  | loadFile name bytes =>
    obtain rfl := Option.some.inj h
    simp [edit]
  | reset | setRegister | store | read => cases h

end Core

end SingleCycle
