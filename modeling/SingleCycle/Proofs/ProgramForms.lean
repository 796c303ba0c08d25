import SingleCycle.Program.Source
import SingleCycle.Proofs.HexText
import SingleCycle.Proofs.InstructionEffect

/-!
# The forms of a program

A program comes as a list of words, as an image, as a text of hexadecimal words or as assembly, and
from a file or not. Whatever its form, a core that loads it ends up with its words in a state that
says nothing of what the core was before, or is not touched at all; and the disassembler lists the
words that the core would get.
-/

namespace SingleCycle

/-! ## Images -/

namespace Image

/-- The four bytes of a word, the least significant one first. -/
def bytesOf (w : Word) : List UInt8 :=
  (List.range 4).map fun k => UInt8.ofNat (w.toNat / 256 ^ k)

/-- The bytes of words in order, of which up to three zeros at the end may be missing. -/
def Holds (ws : List Word) (bytes : List UInt8) : Prop :=
  ∃ k ≤ 3, bytes ++ List.replicate k 0 = ws.flatMap bytesOf

theorem bytesOf_eq (w : Word) : bytesOf w =
    [.ofNat (w.toNat / 256 ^ 0), .ofNat (w.toNat / 256 ^ 1), .ofNat (w.toNat / 256 ^ 2),
      .ofNat (w.toNat / 256 ^ 3)] := rfl

theorem toNat_word (b0 b1 b2 b3 : UInt8) :
    (word b0 b1 b2 b3).toNat =
      b0.toNat + 256 * b1.toNat + 256 ^ 2 * b2.toNat + 256 ^ 3 * b3.toNat := by
  unfold word
  simp only [toNat_append_eq, UInt8.toNat_toBitVec]
  omega

theorem word_bytes (w : Word) :
    word (.ofNat (w.toNat / 256 ^ 0)) (.ofNat (w.toNat / 256 ^ 1)) (.ofNat (w.toNat / 256 ^ 2))
      (.ofNat (w.toNat / 256 ^ 3)) = w := by
  apply BitVec.eq_of_toNat_eq
  have hlt := w.isLt
  rw [toNat_word]
  simp only [UInt8.toNat_ofNat']
  omega

theorem bytesOf_word (b0 b1 b2 b3 : UInt8) : bytesOf (word b0 b1 b2 b3) = [b0, b1, b2, b3] := by
  have h0 := b0.toNat_lt
  have h1 := b1.toNat_lt
  have h2 := b2.toNat_lt
  have h3 := b3.toNat_lt
  have hbyte : ∀ (k : Nat) (b : UInt8), (word b0 b1 b2 b3).toNat / 256 ^ k % 256 = b.toNat →
      UInt8.ofNat ((word b0 b1 b2 b3).toNat / 256 ^ k) = b := by
    intro k b hk
    apply UInt8.toNat_inj.1
    rw [UInt8.toNat_ofNat']
    exact hk
  have hword := toNat_word b0 b1 b2 b3
  rw [bytesOf_eq, hbyte 0 b0 (by omega), hbyte 1 b1 (by omega), hbyte 2 b2 (by omega),
    hbyte 3 b3 (by omega)]

theorem words_flatMap_bytesOf (ws : List Word) : words (ws.flatMap bytesOf) = ws := by
  induction ws with
  | nil => rfl
  | cons w ws ih =>
    rw [List.flatMap_cons]
    exact congrArg₂ (· :: ·) (word_bytes w) ih

/-- Bytes that are missing from the last word count as zero. -/
theorem words_append_zeros {bytes : List UInt8} {k : Nat} (hk : k ≤ 3)
    (h4 : (bytes.length + k) % 4 = 0) : words (bytes ++ List.replicate k 0) = words bytes := by
  fun_induction words bytes with
  | case1 =>
    obtain rfl : k = 0 := by simp at h4; omega
    rfl
  | case2 b0 =>
    obtain rfl : k = 3 := by simp at h4; omega
    rfl
  | case3 b0 b1 =>
    obtain rfl : k = 2 := by simp at h4; omega
    rfl
  | case4 b0 b1 b2 =>
    obtain rfl : k = 1 := by simp at h4; omega
    rfl
  | case5 b0 b1 b2 b3 bytes ih =>
    have ih := ih (by simp at h4; omega)
    exact congrArg (word b0 b1 b2 b3 :: ·) ih

theorem length_flatMap_bytesOf (ws : List Word) : (ws.flatMap bytesOf).length = 4 * ws.length := by
  induction ws with
  | nil => rfl
  | cons w ws ih =>
    rw [List.flatMap_cons, List.length_append, ih, bytesOf_eq]
    simp only [List.length_cons, List.length_nil]
    omega

/-- The reader of images accepts all bytes, and finds the words whose bytes they are. -/
theorem words_eq_iff {bytes : List UInt8} {ws : List Word} : words bytes = ws ↔ Holds ws bytes := by
  constructor
  · rintro rfl
    fun_induction words bytes with
    | case1 => exact ⟨0, by decide, rfl⟩
    | case2 b0 => exact ⟨3, by decide, by simp [bytesOf_word]⟩
    | case3 b0 b1 => exact ⟨2, by decide, by simp [bytesOf_word]⟩
    | case4 b0 b1 b2 => exact ⟨1, by decide, by simp [bytesOf_word]⟩
    | case5 b0 b1 b2 b3 bytes ih =>
      obtain ⟨k, hk, hbytes⟩ := ih
      refine ⟨k, hk, ?_⟩
      rw [List.flatMap_cons, bytesOf_word, ← hbytes]
      rfl
  · rintro ⟨k, hk, hbytes⟩
    have hlength := congrArg List.length hbytes
    rw [List.length_append, List.length_replicate, length_flatMap_bytesOf] at hlength
    rw [← words_append_zeros hk (by omega), hbytes, words_flatMap_bytesOf]

end Image

/-! ## Programs and their words -/

/-- The words of a program, for each form that it may have. A text that does not begin with a
hexadecimal word is assembled. -/
inductive Loadable.Holds : Loadable → List Word → Prop where
  | words (values : List Int) : Holds (.words values) (values.map wordOf)
  | image {bytes : List UInt8} {ws : List Word} (h : Image.Holds ws bytes) : Holds (.image bytes) ws
  | hexText {source : List Char} {ws : List Word} (h : HexProgram.Writes ws source) :
    Holds (.text source) ws
  | assembly {source : List Char} {ws : List Word} (hhex : HexProgram.recognizes source = false)
    (h : (Assembly.ofText source).words = .ok ws) : Holds (.text source) ws

theorem mapError_eq_ok {ε ε' α : Type} {f : ε → ε'} {r : Except ε α} {x : α} :
    r.mapError f = .ok x ↔ r = .ok x := by
  cases r with
  | error e => exact ⟨nofun, nofun⟩
  | ok y => simp [Except.mapError]

/-- A program is read without an error if it has words, and as these. -/
theorem Loadable.reading_eq_ok {program : Loadable} {ws : List Word} :
    program.reading.words = .ok ws ↔ program.Holds ws := by
  constructor
  · intro h
    cases program with
    | words values =>
      cases h
      exact .words values
    | image bytes =>
      cases h
      exact .image (Image.words_eq_iff.1 rfl)
    | text source =>
      have htext : (ProgramText.read source).words = .ok ws := mapError_eq_ok.1 h
      unfold ProgramText.read at htext
      cases hhex : HexProgram.recognizes source with
      | false =>
        rw [hhex] at htext
        exact .assembly hhex htext
      | true =>
        rw [hhex] at htext
        cases hwords : HexProgram.words source with
        | error error =>
          rw [hwords] at htext
          cases htext
        | ok found =>
          rw [hwords] at htext
          cases htext
          exact .hexText (HexProgram.words_eq_ok.1 hwords)
  · intro h
    cases h with
    | words values => rfl
    | image h => exact congrArg Except.ok (Image.words_eq_iff.2 h)
    | hexText h =>
      show (Reading.ofText _).words = _
      rw [Reading.ofText_of_writes h]
    | assembly hhex h =>
      refine mapError_eq_ok.2 ?_
      unfold ProgramText.read
      rw [hhex]
      exact h

namespace Core

/-! ## Loads -/

/-- Integers, the bytes of an image and a text of hexadecimal words are one and the same program to
a core, if they have the same words modulo `2 ^ 32`: the core, the result and what is reported are
equal. -/
theorem formats_agree (c : Core) (values : List Int) :
    let loading := c.loadProgram (.words values)
    (∀ bytes, Image.Holds (values.map wordOf) bytes → c.loadProgram (.image bytes) = loading) ∧
      (∀ source, HexProgram.Writes (values.map wordOf) source →
        c.loadProgram (.text source) = loading) ∧
      (values.length ≤ programSize →
        loading.core = { c.reset with program := programOf (values.map wordOf) } ∧
          loading.result = .ok values.length) ∧
      (programSize < values.length →
        loading.core = c ∧ loading.result = .error (.tooLong values.length)) := by
  intro loading
  have hread : (Loadable.words values).reading.words = .ok (values.map wordOf) := rfl
  have hloading : loading = _ := c.loadReading_of_ok hread
  rw [List.length_map] at hloading
  refine ⟨?_, ?_, ?_, ?_⟩
  · intro bytes hbytes
    show c.loadReading ⟨[], .ok (Image.words bytes)⟩ = loading
    rw [Image.words_eq_iff.2 hbytes]
    rfl
  · intro source hsource
    show c.loadReading (Reading.ofText source) = loading
    rw [Reading.ofText_of_writes hsource]
    rfl
  · intro hshort
    rw [hloading, if_pos hshort]
    exact ⟨rfl, rfl⟩
  · intro hlong
    rw [hloading, if_neg (Nat.not_le.2 hlong)]
    exact ⟨rfl, rfl⟩

/-- Three words, one of them negative and one of them null, in all three forms: the image lacks the
last three bytes, and the text has line breaks of three kinds, comments, and digits of either case.
There is no room for 257 words. -/
theorem formats_agree_mixed :
    let c := { fresh true with pc := 12, halted := true }
    let values := [-1, 0, 0x1_0050_0093]
    let bytes := [0xFF, 0xFF, 0xFF, 0xFF, 0, 0, 0, 0, 0x93, 0, 0x50]
    let source := "\tFFffFFff// all ones\r\n\n0 # none\u2028 00500093 #\r#".toList
    Image.Holds (values.map wordOf) bytes ∧ HexProgram.Writes (values.map wordOf) source ∧
      c.loadProgram (.image bytes) = c.loadProgram (.words values) ∧
      c.loadProgram (.text source) = c.loadProgram (.words values) ∧
      (c.loadProgram (.words values)).result = .ok 3 ∧
      (c.loadProgram (.words (List.replicate 257 7))).result = .error (.tooLong 257) := by
  intro c values bytes source
  have himage : Image.Holds (values.map wordOf) bytes := Image.words_eq_iff.1 (by decide)
  have htext : HexProgram.Writes (values.map wordOf) source := HexProgram.words_eq_ok.1 (by decide)
  obtain ⟨hbytes, hsource, hshort, -⟩ := formats_agree c values
  obtain ⟨-, -, -, hlong⟩ := formats_agree c (List.replicate 257 7)
  rw [List.length_replicate] at hlong
  exact ⟨himage, htext, hbytes bytes himage, hsource source htext, (hshort (by decide)).2,
    (hlong (by decide)).2⟩

/-- A text is loaded as what it is. One that the assembler accepts without a warning is not taken
for hexadecimal words, and one of hexadecimal words, with at least one of them, is not taken for
assembly. -/
theorem loadText_as_meant (c : Core) (source : List Char) (ws : List Word) :
    ((Assembly.ofText source).words = .ok ws → (Assembly.ofText source).skipped = [] →
        HexProgram.recognizes source = false ∧ c.loadText source = c.loadList ws) ∧
      (HexProgram.words source = .ok ws → codeParts (Text.lines source) ≠ [] →
        HexProgram.recognizes source = true ∧ c.loadText source = c.loadList ws) := by
  constructor
  · intro hwords hskipped
    obtain ⟨hhex, hreading⟩ := Reading.ofText_of_accepted hwords hskipped
    refine ⟨hhex, ?_⟩
    unfold loadText
    rw [hreading]
    rfl
  · intro hwords hcode
    have hreading := Reading.ofText_of_writes (HexProgram.words_eq_ok.1 hwords)
    cases ws with
    | nil => exact absurd (HexProgram.codeParts_of_words hwords) hcode
    | cons w ws =>
      refine ⟨HexProgram.recognizes_of_words hwords, ?_⟩
      unfold loadText
      rw [hreading]
      rfl

/-- An instruction and a label whose names are made of hexadecimal digits, and the same names as
words. -/
theorem loadText_as_meant_add :
    let c := { fresh true with pc := 12, halted := true }
    let assembly := "\n# add\nfade:\r\nadd x1, x2, x3\njal x0, fade".toList
    let hex := "// fade:\n\tadd # x1, x2, x3\nfade".toList
    let words : List Word := [0x003100B3, 0xFFDFF06F]
    (Assembly.ofText assembly).words = .ok words ∧ (Assembly.ofText assembly).skipped = [] ∧
      HexProgram.recognizes assembly = false ∧ c.loadText assembly = c.loadList words ∧
      HexProgram.words hex = .ok [0xADD, 0xFADE] ∧ codeParts (Text.lines hex) ≠ [] ∧
      HexProgram.recognizes hex = true ∧ c.loadText hex = c.loadList [0xADD, 0xFADE] := by
  intro c assembly hex words
  have hassembly : (Assembly.ofText assembly).words = .ok words := rfl
  have hskipped : (Assembly.ofText assembly).skipped = [] := rfl
  have hhex : HexProgram.words hex = .ok [0xADD, 0xFADE] := by decide
  have hcode : codeParts (Text.lines hex) ≠ [] := by decide
  obtain ⟨hfalse, hload⟩ := (loadText_as_meant c assembly words).1 hassembly hskipped
  obtain ⟨htrue, hload'⟩ := (loadText_as_meant c hex [0xADD, 0xFADE]).2 hhex hcode
  exact ⟨hassembly, hskipped, hfalse, hload, hhex, hcode, htrue, hload'⟩

/-- A program is loaded as a whole or not at all. A load that is refused leaves the core as it is,
and is refused for a program without words or with too many of them only. A load that succeeds
leaves a fresh core with the words of the program and zeros behind them; of what the core was
before, the trace setting and the log stay. -/
theorem load_all_or_nothing (c : Core) (program : Loadable) :
    let loading := c.loadProgram program
    match loading.result with
    | .error _ => loading.core = c ∧ ∀ ws, program.Holds ws → programSize < ws.length
    | .ok n => ∃ ws, program.Holds ws ∧ ws.length = n ∧ n ≤ programSize ∧
      loading.core = { fresh c.tracing with program := programOf ws, log := c.log } ∧
        ∀ i < programSize, loading.core.program[i]? = some (ws.getD i 0) := by
  intro loading
  have hloading : loading = c.loadReading program.reading := c.loadProgram_eq program
  cases hwords : wordsToLoad? program.reading with
  | none =>
    obtain ⟨hcore, error, hresult⟩ := loadReading_of_none c hwords
    rw [← hloading] at hcore hresult
    rw [hresult]
    refine ⟨hcore, fun ws hws => Nat.lt_of_not_le fun hle => ?_⟩
    have hsome := wordsToLoad?_eq_some.2 ⟨Loadable.reading_eq_ok.2 hws, hle⟩
    rw [hwords] at hsome
    cases hsome
  | some ws =>
    obtain ⟨hcore, hresult⟩ := loadReading_of_some c hwords
    obtain ⟨hreading, hlength⟩ := wordsToLoad?_eq_some.1 hwords
    rw [← hloading] at hcore hresult
    rw [hresult]
    refine ⟨ws, Loadable.reading_eq_ok.1 hreading, rfl, hlength, hcore, fun i hi => ?_⟩
    rw [hcore]
    exact getElem?_programOf ws hi

end Core

/-! ## Files -/

namespace Source

theorem getElem?_addressed {base : Int} {ws : List Word} {i : Nat} {row : Int × Word}
    (h : (addressed base ws)[i]? = some row) : row.1 = base + 4 * (i : Int) := by
  unfold addressed at h
  rw [List.getElem?_map, List.getElem?_zipIdx, Option.map_map] at h
  obtain ⟨w, -, rfl⟩ := Option.map_eq_some_iff.1 h
  show base + 4 * ((0 + i : Nat) : Int) = base + 4 * (i : Int)
  rw [Nat.zero_add]

theorem map_snd_addressed (base : Int) (ws : List Word) :
    (addressed base ws).map Prod.snd = ws := by
  unfold addressed
  rw [List.map_map]
  exact List.zipIdx_map_fst 0 ws

/-- The rows that are shown as instructions are those above the first null word. -/
theorem instructions_of_split {source : Source} {base : Int} {rows : List (Int × Word)}
    (h : source.split base = .ok rows) :
    ∃ shown rest, rows = shown ++ rest ∧ (∀ row ∈ shown, row.2 ≠ 0) ∧
      (∀ row ∈ rest.head?, row.2 = 0) ∧
        source.instructions base = .ok (shown.map fun row => (row.1, ⟨row.2⟩)) := by
  refine ⟨rows.takeWhile fun row => row.2 != 0, rows.dropWhile fun row => row.2 != 0,
    List.takeWhile_append_dropWhile.symm, ?_, ?_, ?_⟩
  · intro row hrow
    simpa using List.mem_takeWhile_imp hrow
  · intro row hrow
    have hfirst := List.head?_dropWhile_not (fun row : Int × Word => row.2 != 0) rows
    rw [Option.mem_def.1 hrow] at hfirst
    simpa using hfirst
  · unfold instructions
    rw [h]
    rfl

/-- What a disassembler lists of a file and what a core loads from it are the same program: the
words at consecutive addresses are those in instruction memory, and there is one error for both. The
instructions are those of the words above the first null one. -/
theorem same_as_loaded (files : Files) {name : String} {bytes : List UInt8}
    (hfile : files name = some bytes) (base : Int) (c : Core) :
    let source := Source.ofArguments files [.text name]
    let loading := c.loadFile name bytes
    match source.split base with
    | .ok rows =>
      (∀ (i : Nat) (row : Int × Word), rows[i]? = some row →
        row.1 = base + 4 * (i : Int) ∧ row.2.toNat < 2 ^ 32) ∧
      (rows.length ≤ programSize → loading.result = .ok rows.length ∧
        loading.core = { c.reset with program := Core.programOf (rows.map Prod.snd) } ∧
          ∀ i < programSize, loading.core.program[i]? = some ((rows.map Prod.snd).getD i 0)) ∧
      (programSize < rows.length →
        loading.result = .error (.tooLong rows.length) ∧ loading.core = c) ∧
      ∃ shown rest, rows = shown ++ rest ∧ (∀ row ∈ shown, row.2 ≠ 0) ∧
        (∀ row ∈ rest.head?, row.2 = 0) ∧
          source.instructions base = .ok (shown.map fun row => (row.1, ⟨row.2⟩))
    | .error error => ∃ cause, error = .file cause ∧ loading.result = .error (.read cause) ∧
      error.message = (LoadError.read cause).message ∧ loading.core = c ∧
        source.instructions base = .error error := by
  intro source loading
  have hsource : source = ofReading (.ofFile name bytes) := by
    show Source.ofArguments files [.text name] = _
    unfold ofArguments
    simp only [hfile]
  have hloading : loading = c.loadReading (.ofFile name bytes) := c.loadFile_eq name bytes
  cases hwords : (Reading.ofFile name bytes).words with
  | error cause =>
    have hsplit : source.split base = .error (.file cause) := by
      rw [hsource]
      unfold split ofReading
      rw [hwords]
      rfl
    rw [hsplit]
    rw [Core.loadReading_of_error c hwords] at hloading
    rw [hloading]
    refine ⟨cause, rfl, rfl, rfl, rfl, ?_⟩
    unfold instructions
    rw [hsplit]
    rfl
  | ok ws =>
    have hsplit : source.split base = .ok (addressed base ws) := by
      rw [hsource]
      unfold split ofReading
      rw [hwords]
      rfl
    have hlength : (addressed base ws).length = ws.length := by
      unfold addressed
      rw [List.length_map, List.length_zipIdx]
    rw [Core.loadReading_of_ok c hwords] at hloading
    rw [hsplit]
    refine ⟨?_, ?_, ?_, instructions_of_split hsplit⟩
    · exact fun i row hrow => ⟨getElem?_addressed hrow, row.2.isLt⟩
    · intro hshort
      rw [hlength] at hshort
      rw [hloading, if_pos hshort, hlength, map_snd_addressed]
      exact ⟨rfl, rfl, fun i hi => Core.getElem?_programOf ws hi⟩
    · intro hlong
      rw [hlength] at hlong
      rw [hloading, if_neg (Nat.not_le.2 hlong), hlength]
      exact ⟨rfl, rfl⟩

/-- An image with a null word inside and bytes missing at its end. -/
theorem same_as_loaded_image :
    let bytes := [0x93, 0, 0x50, 0, 0, 0, 0, 0, 0x73]
    let files : Files := fun name => if name = "p.bin" then some bytes else none
    let source := ofArguments files [.text "p.bin"]
    let loading := (Core.fresh false).loadFile "p.bin" bytes
    files "p.bin" = some bytes ∧
      source.split 0x100 = .ok [(0x100, 0x00500093), (0x104, 0), (0x108, 0x73)] ∧
      source.instructions 0x100 = .ok [(0x100, ⟨0x00500093⟩)] ∧
      loading.result = .ok 3 ∧
      loading.core.program = Core.programOf [0x00500093, 0, 0x73] := by
  intro bytes files source loading
  have hfile : files "p.bin" = some bytes := rfl
  have hsplit : (ofArguments files [.text "p.bin"]).split 0x100 =
      .ok [(0x100, 0x00500093), (0x104, 0), (0x108, 0x73)] := rfl
  have hsame := same_as_loaded files hfile 0x100 (Core.fresh false)
  simp only [hsplit] at hsame
  obtain ⟨-, hshort, -⟩ := hsame
  obtain ⟨hresult, hcore, -⟩ := hshort (by decide)
  have hprogram : loading.core.program = Core.programOf [0x00500093, 0, 0x73] := by
    show ((Core.fresh false).loadFile "p.bin" bytes).core.program = _
    rw [hcore]
    rfl
  exact ⟨hfile, hsplit, rfl, hresult, hprogram⟩

end Source

end SingleCycle
