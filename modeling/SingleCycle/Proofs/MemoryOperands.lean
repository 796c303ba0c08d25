import SingleCycle.Proofs.TokenGrammar

/-!
# Memory operands

The operands of a load or store are looked at twice: their form is tested on the whole text, and the
tokens are what stands between separators. Here the text is `first , offset ( base )`, in which the
three parts are tokens with margins. A text has at most one such reading, and where the form is
right and there are three tokens, it has one, whose tokens are the operands.
-/

namespace SingleCycle

namespace Operand

/-! ## Tokens with margins -/

/-- White space and parentheses, which may stand around the first operand. -/
def isMargin (c : Char) : Bool := Text.isBlank c || c = '(' || c = ')'

theorem isSeparator_of_isMargin {c : Char} (h : isMargin c = true) : isSeparator c = true := by
  unfold isMargin at h
  simp only [Bool.or_eq_true, decide_eq_true_eq] at h
  rcases h with (hblank | rfl) | rfl
  · exact isSeparator_of_isBlank hblank
  · decide
  · decide

/-- A token between characters of a kind. -/
@[ext]
structure Padded (margin : Char → Bool) where
  before : List Char
  token : List Char
  after : List Char
  margin_before : ∀ c ∈ before, margin c = true
  margin_after : ∀ c ∈ after, margin c = true
  ne_nil : token ≠ []
  solid : ∀ c ∈ token, isSeparator c = false

namespace Padded

variable {margin : Char → Bool}

/-- The token with its margins. -/
def text (p : Padded margin) : List Char := p.before ++ (p.token ++ p.after)

/-- White space is taken off the margin in front of the token. -/
def trimStart (p : Padded isMargin) : Padded isMargin :=
  { p with
    before := p.before.dropWhile Text.isBlank
    margin_before := fun c hc =>
      p.margin_before c ((List.dropWhile_suffix Text.isBlank).mem hc) }

theorem text_eq_append (p : Padded isMargin) :
    p.text = p.before.takeWhile Text.isBlank ++ p.trimStart.text := by
  unfold text
  show _ = p.before.takeWhile Text.isBlank ++
    (p.before.dropWhile Text.isBlank ++ (p.token ++ p.after))
  rw [← List.append_assoc (p.before.takeWhile Text.isBlank), List.takeWhile_append_dropWhile]

theorem text_append (p : Padded margin) (rest : List Char) :
    p.text ++ rest = p.before ++ (p.token ++ (p.after ++ rest)) := by
  simp [text]

theorem head?_token (p : Padded margin) (rest : List Char) :
    ∀ c ∈ (p.token ++ rest).head?, isSeparator c = false := by
  intro c hc
  rw [List.head?_append_of_ne_nil _ p.ne_nil] at hc
  exact p.solid c (List.mem_of_head? hc)

section

variable (hmargin : ∀ {c}, margin c = true → isSeparator c = true)
include hmargin

theorem head?_after (p : Padded margin) {c : Char} (hc : isSeparator c = true) (rest : List Char) :
    ∀ d ∈ (p.after ++ c :: rest).head?, isSeparator d = true := by
  intro d hd
  cases hafter : p.after with
  | nil =>
    rw [hafter] at hd
    obtain rfl := Option.some.inj hd
    exact hc
  | cons e es =>
    have he : e ∈ p.after := by simp [hafter]
    rw [hafter] at hd
    obtain rfl := Option.some.inj hd
    exact hmargin (p.margin_after _ he)

/-- A separator that belongs to no margin shows where a token with its margins ends. -/
theorem append_inj {p q : Padded margin} {c : Char} {rest rest' : List Char}
    (hc : isSeparator c = true) (hcut : margin c = false)
    (h : p.text ++ c :: rest = q.text ++ c :: rest') : p = q ∧ rest = rest' := by
  have hbefore : ∀ r : Padded margin, ∀ d ∈ r.before, isSeparator d = true := fun r d hd =>
    hmargin (r.margin_before d hd)
  have hsolid : ∀ r : Padded margin, ∀ d ∈ r.token, (!isSeparator d) = true := by
    intro r d hd
    rw [r.solid d hd]
    rfl
  have hstop : ∀ (r : Padded margin) (tail : List Char),
      ∀ d ∈ (r.after ++ c :: tail).head?, (!isSeparator d) = false := by
    intro r tail d hd
    rw [r.head?_after hmargin hc tail d hd]
    rfl
  have hend : ∀ tail : List Char, ∀ d ∈ (c :: tail).head?, margin d = false := by
    intro tail d hd
    obtain rfl := Option.some.inj hd
    exact hcut
  -- the texts agree span by span: margin, token, margin
  rw [text_append, text_append] at h
  obtain ⟨hfirst, h⟩ := Text.append_inj_of_span h (hbefore p) (p.head?_token _) (hbefore q)
    (q.head?_token _)
  obtain ⟨htoken, h⟩ := Text.append_inj_of_span h (hsolid p) (hstop p _) (hsolid q) (hstop q _)
  obtain ⟨hafter, h⟩ := Text.append_inj_of_span h p.margin_after (hend _) q.margin_after (hend _)
  exact ⟨Padded.ext hfirst htoken hafter, (List.cons.inj h).2⟩

/-- The margins do not show among the tokens. -/
theorem tokens_append (p : Padded margin) {c : Char} (hc : isSeparator c = true)
    (rest : List Char) : Text.tokens isSeparator (p.text ++ c :: rest) =
      p.token :: Text.tokens isSeparator rest := by
  have hbefore : ∀ d ∈ p.before, isSeparator d = true := fun d hd =>
    hmargin (p.margin_before d hd)
  rw [text_append, Text.tokens_separators hbefore]
  cases hafter : p.after with
  | nil => exact Text.tokens_append p.ne_nil p.solid hc
  | cons d ds =>
    have hsome : ∀ e ∈ d :: ds, isSeparator e = true := fun e he =>
      hmargin (p.margin_after e (hafter ▸ he))
    have hskip : Text.tokens isSeparator (ds ++ c :: rest) = Text.tokens isSeparator rest := by
      rw [Text.tokens_separators fun e he => hsome e (List.mem_cons_of_mem d he),
        Text.tokens_cons_separator hc]
    rw [List.cons_append, Text.tokens_append p.ne_nil p.solid (hsome d List.mem_cons_self), hskip]

end

end Padded

/-- A text with one token and without a comma is the token with margins. -/
theorem exists_padded_of_tokens {cs token : List Char}
    (h : Text.tokens isSeparator cs = [token]) (hcomma : ',' ∉ cs) :
    ∃ p : Padded isMargin, p.text = cs := by
  obtain ⟨before, after, rfl, hbefore, hne, hsolid, hafter⟩ := Text.first_token h
  have hmargin : ∀ c ∈ before ++ (token ++ after), isSeparator c = true → isMargin c = true := by
    intro c hc hseparator
    unfold isSeparator at hseparator
    unfold isMargin
    have hne : c ≠ ',' := fun heq => hcomma (heq ▸ hc)
    simpa [hne] using hseparator
  refine ⟨⟨before, token, after, fun c hc => ?_, fun c hc => ?_, hne, hsolid⟩, rfl⟩
  · exact hmargin c (by simp [hc]) (hbefore c hc)
  · exact hmargin c (by simp [hc]) (Text.separator_of_tokens hafter c hc)

/-- What is left behind a token, which may have white space around it. -/
theorem exists_padded_of_afterToken? {cs rest : List Char} (h : afterToken? cs = some rest) :
    ∃ p : Padded Text.isBlank, cs = p.text ++ rest := by
  unfold afterToken? at h
  simp only at h
  split at h
  · cases h
  · next hne =>
    have hrest := Option.some.inj h
    have hstart : cs.takeWhile Text.isBlank ++ Text.trimStart cs = cs :=
      List.takeWhile_append_dropWhile
    generalize Text.trimStart cs = word at hne hrest hstart
    have hword := List.takeWhile_append_dropWhile (p := fun c => !isSeparator c) (l := word)
    generalize htail : word.dropWhile (fun c => !isSeparator c) = tail at hrest hword
    have hend : tail.takeWhile Text.isBlank ++ Text.trimStart tail = tail :=
      List.takeWhile_append_dropWhile
    refine ⟨⟨cs.takeWhile Text.isBlank, word.takeWhile fun c => !isSeparator c,
      tail.takeWhile Text.isBlank, fun c hc => List.mem_takeWhile_imp hc,
      fun c hc => List.mem_takeWhile_imp hc, by simpa using hne, fun c hc => ?_⟩, ?_⟩
    · simpa using List.mem_takeWhile_imp hc
    · rw [Padded.text_append, ← hrest, hend, hword, hstart]

/-- The form that is tested: a text without a comma, a comma, a token, and a token between
parentheses. Around the tokens there may be white space. -/
theorem isMemoryForm_iff {cs : List Char} : isMemoryForm cs = true ↔
    ∃ (front : List Char) (offset base : Padded Text.isBlank), front ≠ [] ∧ ',' ∉ front ∧
      cs = front ++ ',' :: (offset.text ++ '(' :: (base.text ++ [')'])) := by
  constructor
  · intro hform
    have hcut := List.takeWhile_append_dropWhile (p := fun c => decide (c ≠ ',')) (l := cs)
    have hcomma : ',' ∉ cs.takeWhile fun c => decide (c ≠ ',') := by
      intro hmem
      simpa using List.mem_takeWhile_imp hmem
    unfold isMemoryForm at hform
    simp only [Bool.and_eq_true] at hform
    obtain ⟨hsome, hform⟩ := hform
    generalize cs.takeWhile (fun c => decide (c ≠ ',')) = front at hsome hcut hcomma
    have hne : front ≠ [] := by simpa using hsome
    split at hform
    · next access hdrop =>
      obtain ⟨behind, hbehind, hbase⟩ := (Option.any_eq_true _ _).1 hform
      unfold isBase at hbase
      split at hbase
      · next inside =>
        obtain ⟨offset, rfl⟩ := exists_padded_of_afterToken? hbehind
        obtain ⟨base, rfl⟩ := exists_padded_of_afterToken? (eq_of_beq hbase)
        rw [hdrop] at hcut
        exact ⟨front, offset, base, hne, hcomma, hcut.symm⟩
      · cases hbase
    · cases hform
  · rintro ⟨front, offset, base, hne, hcomma, rfl⟩
    rw [offset.text_append, base.text_append]
    exact isMemoryForm_append hne hcomma offset.margin_before offset.ne_nil offset.solid
      offset.margin_after base.margin_before base.ne_nil base.solid base.margin_after

/-! ## The operands of a load or store -/

/-- A text `first , offset ( base )`. The first operand has no comma in its margins, the other two
have white space around them. -/
@[ext]
structure AccessText where
  first : Padded isMargin
  offset : Padded Text.isBlank
  base : Padded Text.isBlank

namespace AccessText

/-- The operands with what stands between them. -/
def text (a : AccessText) : List Char :=
  a.first.text ++ ',' :: (a.offset.text ++ '(' :: (a.base.text ++ [')']))

/-- A text has one reading at most. -/
theorem text_injective {a b : AccessText} (h : a.text = b.text) : a = b := by
  obtain ⟨hfirst, h⟩ := Padded.append_inj isSeparator_of_isMargin (by decide) (by decide) h
  obtain ⟨hoffset, h⟩ := Padded.append_inj isSeparator_of_isBlank (by decide) (by decide) h
  obtain ⟨hbase, -⟩ := Padded.append_inj isSeparator_of_isBlank (by decide) (by decide) h
  exact AccessText.ext hfirst hoffset hbase

/-- The operands are the tokens between the separators. -/
theorem split_text (a : AccessText) :
    split a.text = [a.first.token, a.offset.token, a.base.token] := by
  unfold split text
  rw [a.first.tokens_append isSeparator_of_isMargin (by decide),
    a.offset.tokens_append isSeparator_of_isBlank (by decide),
    a.base.tokens_append isSeparator_of_isBlank (by decide)]
  rfl

theorem isMemoryForm_text (a : AccessText) : isMemoryForm a.text = true := by
  have hne : a.first.text ≠ [] := by
    unfold Padded.text
    simp [a.first.ne_nil]
  have hcomma : ',' ∉ a.first.text := by
    have hmargin : isMargin ',' = false := by decide
    have hseparator : isSeparator ',' = true := by decide
    unfold Padded.text
    simp only [List.mem_append, not_or]
    refine ⟨fun h => ?_, fun h => ?_, fun h => ?_⟩
    · exact absurd (a.first.margin_before _ h) (by simp [hmargin])
    · exact absurd (a.first.solid _ h) (by simp [hseparator])
    · exact absurd (a.first.margin_after _ h) (by simp [hmargin])
  exact isMemoryForm_iff.2 ⟨a.first.text, a.offset, a.base, hne, hcomma, rfl⟩

/-- Where the form is right and there are three tokens, the text has a reading. -/
theorem exists_of_isMemoryForm {cs x y z : List Char} (hform : isMemoryForm cs = true)
    (hsplit : split cs = [x, y, z]) : ∃ a : AccessText, a.text = cs := by
  obtain ⟨front, offset, base, -, hcomma, rfl⟩ := isMemoryForm_iff.1 hform
  -- there are two tokens behind the comma, which leaves one for what is in front of it
  have hfront : Text.tokens isSeparator front = [x] := by
    have htokens : Text.tokens isSeparator front ++ [offset.token, base.token] =
        [x] ++ [y, z] := by
      rw [List.singleton_append, ← hsplit]
      unfold split
      rw [Text.tokens_append_separator (by decide),
        offset.tokens_append isSeparator_of_isBlank (by decide),
        base.tokens_append isSeparator_of_isBlank (by decide)]
      rfl
    exact List.append_inj_left' htokens rfl
  obtain ⟨first, rfl⟩ := exists_padded_of_tokens hfront hcomma
  exact ⟨⟨first, offset, base⟩, rfl⟩

/-- The operands without the white space in front of them. -/
def trimStart (a : AccessText) : AccessText :=
  { a with first := a.first.trimStart }

theorem text_eq_append (a : AccessText) :
    a.text = a.first.before.takeWhile Text.isBlank ++ a.trimStart.text := by
  unfold text
  rw [a.first.text_eq_append, List.append_assoc]
  rfl

theorem trimmed_trimStart (a : AccessText) : Text.Trimmed a.trimStart.text := by
  constructor
  · intro c hc
    have hhead := List.head?_dropWhile_not Text.isBlank a.first.before
    have hbefore : a.trimStart.first.before = a.first.before.dropWhile Text.isBlank := rfl
    unfold text at hc
    rw [Padded.text_append, hbefore] at hc
    cases hfirst : a.first.before.dropWhile Text.isBlank with
    | nil =>
      rw [hfirst] at hc
      exact isBlank_of_not_isSeparator (a.trimStart.first.head?_token _ c hc)
    | cons d ds =>
      rw [hfirst] at hc hhead
      obtain rfl := Option.some.inj hc
      simpa using hhead
  · intro c hc
    have hclose : a.trimStart.text.getLast? = some ')' := by
      unfold text
      simp [List.getLast?_append, List.getLast?_cons]
    obtain rfl := Option.some.inj (hclose.symm.trans hc)
    decide

/-- White space in front of a text belongs to the margins of its first token. -/
theorem text_trimStart (a : AccessText) : a.trimStart.text = Text.trim a.text := by
  have hblanks : ∀ c ∈ a.first.before.takeWhile Text.isBlank, Text.isBlank c = true := fun c hc =>
    List.mem_takeWhile_imp hc
  have hnone : ∀ c ∈ [], Text.isBlank c = true := nofun
  rw [a.text_eq_append, ← List.append_nil a.trimStart.text, Text.trim_margins hblanks hnone,
    a.trimmed_trimStart.trim_eq, List.append_nil]

theorem split_text_trimStart (a : AccessText) : split a.trimStart.text = split a.text := by
  rw [split_text, split_text]
  rfl

/-! ## Words -/

/-- The word of a load or store with these operands: the first one is the register that is loaded or
stored, and the base and the offset make up the address. -/
inductive Builds (a : AccessText) : Mnemonic → Word → Prop where
  | lw {rd rs1 : Nat} {imm : Int} (hrd : NamesRegister a.first.token rd)
      (himm : Denotes a.offset.token imm) (hrs1 : NamesRegister a.base.token rs1) :
      a.Builds .lw (Encoding.encodeI imm rs1 2 rd Opcode.load.code)
  | sw {rs2 rs1 : Nat} {imm : Int} (hrs2 : NamesRegister a.first.token rs2)
      (himm : Denotes a.offset.token imm) (hrs1 : NamesRegister a.base.token rs1) :
      a.Builds .sw (Encoding.encodeS imm rs2 rs1 2 Opcode.store.code)

theorem encodeI_load (imm : Int) (rs1 rd : BitVec 5) :
    Encoding.encodeI imm rs1.toNat 2 rd.toNat Opcode.load.code =
      Encoding.wordI (.ofInt 12 imm) rs1 Mnemonic.wordFunct3 rd Opcode.load.bits := by
  unfold Encoding.encodeI
  rw [ofInt_toNat, ofInt_toNat]
  rfl

theorem encodeS_store (imm : Int) (rs2 rs1 : BitVec 5) :
    Encoding.encodeS imm rs2.toNat rs1.toNat 2 Opcode.store.code =
      Encoding.wordS (.ofInt 12 imm) rs2 rs1 Mnemonic.wordFunct3 Opcode.store.bits := by
  unfold Encoding.encodeS
  rw [ofInt_toNat, ofInt_toNat]
  rfl

theorem builds_of_reads {a : AccessText} {m : Mnemonic} {s : Statement} {labels : LabelTable}
    {address : Int} {w : Word} (hm : Statement.accessesMemory m = true)
    (hreads : Statement.Reads m (split a.text) s) (hencode : s.encode labels address = .ok w) :
    a.Builds m w := by
  rw [split_text] at hreads
  cases hreads with
  | lw hrd himm hrs1 =>
    cases hencode
    rw [← encodeI_load]
    exact .lw (register?_eq_some_iff.1 hrd) (immediate_eq_ok_iff.1 himm)
      (register?_eq_some_iff.1 hrs1)
  | sw hrs2 himm hrs1 =>
    cases hencode
    rw [← encodeS_store]
    exact .sw (register?_eq_some_iff.1 hrs2) (immediate_eq_ok_iff.1 himm)
      (register?_eq_some_iff.1 hrs1)
  | register | immediate | branch => cases hm

theorem Builds.reads {a : AccessText} {m : Mnemonic} {w : Word} (h : a.Builds m w)
    (labels : LabelTable) (address : Int) :
    ∃ s, Statement.Reads m (split a.text) s ∧ s.encode labels address = .ok w := by
  have hregister : ∀ {token : List Char} {n : Nat}, NamesRegister token n →
      ∃ r : BitVec 5, register? token = some r ∧ r.toNat = n := by
    intro token n hnames
    obtain ⟨r, hr, hn⟩ := register_eq_ok_iff.2 hnames
    exact ⟨r, register?_of_ok hr, hn⟩
  rw [split_text]
  cases h with
  | lw hrd himm hrs1 =>
    obtain ⟨rd, hd, rfl⟩ := hregister hrd
    obtain ⟨base, hbase, rfl⟩ := hregister hrs1
    rw [encodeI_load]
    exact ⟨_, .lw hd (immediate_eq_ok_iff.2 himm) hbase, rfl⟩
  | sw hrs2 himm hrs1 =>
    obtain ⟨source, hsource, rfl⟩ := hregister hrs2
    obtain ⟨base, hbase, rfl⟩ := hregister hrs1
    rw [encodeS_store]
    exact ⟨_, .sw hsource (immediate_eq_ok_iff.2 himm) hbase, rfl⟩

end AccessText

/-! ## Lines -/

theorem three_of_reads {m : Mnemonic} {tokens : List (List Char)} {s : Statement}
    (hm : Statement.accessesMemory m = true) (h : Statement.Reads m tokens s) :
    ∃ x y z, tokens = [x, y, z] := by
  cases h with
  | lw | sw => exact ⟨_, _, _, rfl⟩
  | register | immediate | branch | lui | jal => cases hm

/-- A load or store that is accepted has operands with one reading, from which its word is built; and
every line with such operands is accepted. -/
theorem assembles_access (labels : LabelTable) (address line : Int) (code : List Char)
    (m : Mnemonic) (hm : mnemonicOf? code = some m) (haccess : Statement.accessesMemory m = true) :
    (∀ w, assembleLine labels address line code = .ok (some w) →
      ∃ a : AccessText, a.text = (Text.splitWord code).2 ∧ a.Builds m w ∧
        ∀ b : AccessText, b.text = (Text.splitWord code).2 → b = a) ∧
    ∀ (a : AccessText) (w : Word), (Text.splitWord code).2 = Text.trim a.text → a.Builds m w →
      assembleLine labels address line code = .ok (some w) := by
  constructor
  · intro w h
    obtain ⟨m', s, hm', hparse, hencode⟩ := parse_of_assembleLine h
    obtain rfl := Option.some.inj (hm.symm.trans hm')
    have hform := Statement.isMemoryForm_of_parse hparse haccess
    have hreads := Statement.reads_of_parse hparse
    obtain ⟨x, y, z, hsplit⟩ := three_of_reads haccess hreads
    obtain ⟨a, ha⟩ := AccessText.exists_of_isMemoryForm hform hsplit
    refine ⟨a, ha, AccessText.builds_of_reads haccess (ha ▸ hreads) hencode, fun b hb => ?_⟩
    exact AccessText.text_injective (hb.trans ha.symm)
  · intro a w hcode hbuilds
    obtain ⟨s, hreads, hencode⟩ := hbuilds.reads labels address
    have htext : (Text.splitWord code).2 = a.trimStart.text := hcode.trans a.text_trimStart.symm
    have hoperands : operandsOf code = split a.text := by
      unfold operandsOf
      rw [htext, a.split_text_trimStart]
    refine assembleLine_of_reads hm (fun _ => ?_) (hoperands ▸ hreads) hencode
    rw [htext]
    exact a.trimStart.isMemoryForm_text

/-- A load that has a parenthesis too many, and white space behind its tokens. -/
theorem assembles_access_margins :
    let code := "LW (x1 ,-4 (x2 )".toList
    let a : AccessText :=
      { first := ⟨['('], registerToken 1, [' '], List.all_eq_true.1 (by decide),
          List.all_eq_true.1 (by decide), (plain_registerToken 1).solid.1,
          (plain_registerToken 1).solid.2⟩
        offset := ⟨[], decimalToken (-4), [' '], nofun, List.all_eq_true.1 (by decide),
          (plain_decimalToken (-4)).solid.1, (plain_decimalToken (-4)).solid.2⟩
        base := ⟨[], registerToken 2, [' '], nofun, List.all_eq_true.1 (by decide),
          (plain_registerToken 2).solid.1, (plain_registerToken 2).solid.2⟩ }
    mnemonicOf? code = some .lw ∧ Statement.accessesMemory .lw = true ∧
      (Text.splitWord code).2 = Text.trim a.text ∧ a.Builds .lw 0xFFC12083 ∧
      assembleLine [] 0 1 code = .ok (some 0xFFC12083) := by
  intro code a
  have hm : mnemonicOf? code = some .lw := by decide
  have hcode : (Text.splitWord code).2 = Text.trim a.text := by decide
  have hword : Encoding.encodeI (-(4 : Nat)) (2 : BitVec 5).toNat 2 (1 : BitVec 5).toNat
      Opcode.load.code = 0xFFC12083 := by decide
  have hnames : ∀ r, NamesRegister (registerToken r) r.toNat := fun r =>
    register?_eq_some_iff.1 (register?_registerToken r)
  have himm : Denotes (decimalToken (-4)) (-(4 : Nat)) :=
    .negative (Numeral.spells_toDigits (by decide) 4) (by decide)
  have hbuilds : a.Builds .lw 0xFFC12083 := by
    rw [← hword]
    exact .lw (hnames 1) himm (hnames 2)
  exact ⟨hm, rfl, hcode, hbuilds, (assembles_access [] 0 1 code .lw hm rfl).2 a _ hcode hbuilds⟩

end Operand

end SingleCycle
