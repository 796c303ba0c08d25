import Mathlib.Data.List.Basic
import Mathlib.Data.List.TakeWhile
import SingleCycle.Assembly.Operand
import SingleCycle.Assembly.SourceLine

/-!
# Cutting text that was put together

What the functions that cut a text at white space, at separators and at line ends do with a text
that was put together from pieces: they give the pieces back, as long as no piece contains what is
cut at.
-/

namespace SingleCycle

namespace Text

/-! ## White space -/

section

variable {blanks cs : List Char}

theorem dropWhile_eq_self {p : Char → Bool} (h : ∀ c ∈ cs.head?, p c = false) :
    cs.dropWhile p = cs := by
  cases cs with
  | nil => rfl
  | cons c cs =>
    have hc := h c rfl
    exact List.dropWhile_cons_of_neg (by simp [hc])

/-- A text is cut in one way into a front of characters of a kind and a rest that does not begin with
one. -/
theorem append_inj_of_span {p : Char → Bool} {front front' rest rest' : List Char}
    (h : front ++ rest = front' ++ rest') (hfront : ∀ c ∈ front, p c = true)
    (hrest : ∀ c ∈ rest.head?, p c = false) (hfront' : ∀ c ∈ front', p c = true)
    (hrest' : ∀ c ∈ rest'.head?, p c = false) : front = front' ∧ rest = rest' := by
  have hdrop : rest = rest' := by
    have hcut := congrArg (List.dropWhile p) h
    rwa [List.dropWhile_append_of_pos hfront, List.dropWhile_append_of_pos hfront',
      dropWhile_eq_self hrest, dropWhile_eq_self hrest'] at hcut
  rw [hdrop] at h
  exact ⟨List.append_cancel_right h, hdrop⟩

theorem trimStart_append (hblanks : ∀ c ∈ blanks, isBlank c = true) :
    trimStart (blanks ++ cs) = trimStart cs :=
  List.dropWhile_append_of_pos hblanks

theorem trimEnd_append (hblanks : ∀ c ∈ blanks, isBlank c = true) :
    trimEnd (cs ++ blanks) = trimEnd cs := by
  unfold trimEnd
  rw [List.reverse_append]
  exact congrArg List.reverse
    (trimStart_append fun c hc => hblanks c (List.mem_reverse.1 hc))

theorem trimStart_eq_self (h : ∀ c ∈ cs.head?, isBlank c = false) : trimStart cs = cs :=
  dropWhile_eq_self h

theorem trimEnd_eq_self (h : ∀ c ∈ cs.getLast?, isBlank c = false) : trimEnd cs = cs := by
  unfold trimEnd
  rw [dropWhile_eq_self, List.reverse_reverse]
  rw [List.head?_reverse]
  exact h

/-- A text without white space at its two ends. -/
structure Trimmed (cs : List Char) : Prop where
  first : ∀ c ∈ cs.head?, isBlank c = false
  last : ∀ c ∈ cs.getLast?, isBlank c = false

/-- White space around a text makes no difference to what is left of it. -/
theorem trim_margins {before after : List Char} (hbefore : ∀ c ∈ before, isBlank c = true)
    (hafter : ∀ c ∈ after, isBlank c = true) : trim (before ++ (cs ++ after)) = trim cs := by
  have hstart : trimStart (cs ++ after) = if (trimStart cs).isEmpty then trimStart after
      else trimStart cs ++ after := List.dropWhile_append
  rw [trim, trimStart_append hbefore, hstart]
  split
  · next hempty =>
    have hnone : trimStart after = [] := List.dropWhile_eq_nil_iff.2 hafter
    rw [trim, hnone, List.isEmpty_iff.1 hempty]
  · exact trimEnd_append hafter

theorem Trimmed.trim_eq (h : Trimmed cs) : trim cs = cs := by
  rw [trim, trimStart_eq_self h.first, trimEnd_eq_self h.last]

theorem trim_enclosed (cs : List Char) :
    ∃ before after, cs = before ++ (trim cs ++ after) ∧
      (∀ c ∈ before, isBlank c = true) ∧ ∀ c ∈ after, isBlank c = true := by
  have hend : ∀ ds : List Char, ∃ after, ds = trimEnd ds ++ after ∧
      ∀ c ∈ after, isBlank c = true := by
    intro ds
    refine ⟨(ds.reverse.takeWhile isBlank).reverse, ?_, ?_⟩
    · unfold trimEnd
      rw [← List.reverse_append, List.takeWhile_append_dropWhile, List.reverse_reverse]
    · intro c hc
      exact List.mem_takeWhile_imp (List.mem_reverse.1 hc)
  obtain ⟨after, hafter, hblank⟩ := hend (trimStart cs)
  refine ⟨cs.takeWhile isBlank, after, ?_, fun c hc => List.mem_takeWhile_imp hc, hblank⟩
  unfold trim
  rw [← hafter]
  exact List.takeWhile_append_dropWhile.symm

theorem isBlank_getLast_trim (h : trim cs ≠ []) :
    isBlank ((trim cs).getLast h) = false := by
  have hhead := List.head?_dropWhile_not isBlank (trimStart cs).reverse
  have hlast : ((trimStart cs).reverse.dropWhile isBlank).head? =
      some ((trim cs).getLast h) := by
    rw [← List.getLast?_reverse]
    exact List.getLast?_eq_some_getLast h
  rw [hlast] at hhead
  simpa using hhead

theorem Trimmed.of_solid (h : ∀ c ∈ cs, isBlank c = false) : Trimmed cs where
  first c hc := h c (List.mem_of_head? hc)
  last c hc := h c (List.mem_of_getLast? hc)

/-- What stands between two texts does not show at the ends. -/
theorem Trimmed.enclose {first middle last : List Char} (hfirst : Trimmed first)
    (hne : first ≠ []) (hlast : Trimmed last) (hne' : last ≠ []) :
    Trimmed (first ++ (middle ++ last)) where
  first := by
    rw [List.head?_append_of_ne_nil _ hne]
    exact hfirst.first
  last := by
    rw [List.getLast?_append_of_ne_nil _ (List.append_ne_nil_of_right_ne_nil _ hne'),
      List.getLast?_append_of_ne_nil _ hne']
    exact hlast.last

theorem Trimmed.intercalate {separator : List Char} {ts : List (List Char)}
    (hts : ∀ t ∈ ts, t ≠ [] ∧ Trimmed t) : Trimmed (List.intercalate separator ts) := by
  induction ts with
  | nil => exact ⟨nofun, nofun⟩
  | cons t ts ih =>
    obtain ⟨hne, ht⟩ := hts t List.mem_cons_self
    have ih := ih fun u hu => hts u (List.mem_cons_of_mem t hu)
    cases ts with
    | nil =>
      rw [List.intercalate_singleton]
      exact ht
    | cons u us =>
      have hne' : List.intercalate separator (u :: us) ≠ [] := by
        obtain ⟨hu, -⟩ := hts u (List.mem_cons_of_mem t List.mem_cons_self)
        cases us with
        | nil =>
          rw [List.intercalate_singleton]
          exact hu
        | cons v vs =>
          rw [List.intercalate_cons_cons, List.append_assoc]
          exact List.append_ne_nil_of_left_ne_nil hu _
      rw [List.intercalate_cons_cons, List.append_assoc]
      exact ht.enclose hne ih hne'

/-- The first word of a text without white space is the whole text. -/
theorem splitWord_of_solid (h : ∀ c ∈ cs, isBlank c = false) : splitWord cs = (cs, []) := by
  have hnot : ∀ c ∈ cs, (!isBlank c) = true := by
    intro c hc
    rw [h c hc]
    rfl
  have htake : (cs ++ []).takeWhile (fun c => !isBlank c) = cs ++ [] :=
    List.takeWhile_append_of_pos hnot
  have hdrop : (cs ++ []).dropWhile (fun c => !isBlank c) = [] :=
    List.dropWhile_append_of_pos hnot
  rw [List.append_nil] at htake hdrop
  unfold splitWord
  simp only [trimStart_eq_self (Trimmed.of_solid h).first]
  rw [htake, hdrop]
  simp [trim, trimStart, trimEnd]

/-- The first word of a text, and what follows the white space behind it. -/
theorem splitWord_append {word rest : List Char} (hword : word ≠ [])
    (hsolid : ∀ c ∈ word, isBlank c = false) (hblanks : blanks ≠ [])
    (hblank : ∀ c ∈ blanks, isBlank c = true) (hrest : trim rest = rest) :
    splitWord (word ++ (blanks ++ rest)) = (word, rest) := by
  have hnot : ∀ c ∈ word, (!isBlank c) = true := by
    intro c hc
    rw [hsolid c hc]
    rfl
  have hstart : trimStart (word ++ (blanks ++ rest)) = word ++ (blanks ++ rest) := by
    apply trimStart_eq_self
    intro c hc
    rw [List.head?_append_of_ne_nil _ hword] at hc
    exact hsolid c (List.mem_of_head? hc)
  have hfirst : ∀ c ∈ (blanks ++ rest).head?, (!isBlank c) = false := by
    intro c hc
    rw [List.head?_append_of_ne_nil _ hblanks] at hc
    rw [hblank c (List.mem_of_head? hc)]
    rfl
  have htake : (blanks ++ rest).takeWhile (fun c => !isBlank c) = [] := by
    have hdrop := dropWhile_eq_self hfirst
    have happend := List.takeWhile_append_dropWhile (p := fun c => !isBlank c) (l := blanks ++ rest)
    rw [hdrop] at happend
    exact List.append_left_eq_self.1 happend
  unfold splitWord
  simp only [hstart]
  rw [List.takeWhile_append_of_pos hnot, List.dropWhile_append_of_pos hnot, htake,
    dropWhile_eq_self hfirst, List.append_nil]
  unfold trim
  rw [trimStart_append hblank]
  exact Prod.ext rfl hrest

end

/-! ## Separators -/

theorem mem_intercalate {separator : List Char} {ts : List (List Char)} {c : Char}
    (h : c ∈ List.intercalate separator ts) : c ∈ separator ∨ ∃ t ∈ ts, c ∈ t := by
  induction ts with
  | nil => cases h
  | cons t ts ih =>
    cases ts with
    | nil =>
      rw [List.intercalate_singleton] at h
      exact .inr ⟨t, List.mem_cons_self, h⟩
    | cons u us =>
      rw [List.intercalate_cons_cons, List.append_assoc] at h
      rcases List.mem_append.1 h with h | h
      · exact .inr ⟨t, List.mem_cons_self, h⟩
      rcases List.mem_append.1 h with h | h
      · exact .inl h
      rcases ih h with h | ⟨v, hv, hc⟩
      · exact .inl h
      · exact .inr ⟨v, List.mem_cons_of_mem t hv, hc⟩

section

variable {isSeparator : Char → Bool} {piece rest separators : List Char} {c : Char}

theorem pieces_ne_nil (cs : List Char) : pieces isSeparator cs ≠ [] := by
  cases cs with
  | nil => simp [pieces]
  | cons d cs =>
    unfold pieces
    by_cases hd : isSeparator d = true
    · simp [hd]
    · cases hpieces : pieces isSeparator cs <;> simp [hd, consHead]

theorem pieces_append (hc : isSeparator c = true) (cs : List Char) :
    pieces isSeparator (cs ++ c :: rest) = pieces isSeparator cs ++ pieces isSeparator rest := by
  induction cs with
  | nil => simp [pieces, hc]
  | cons d cs ih =>
    by_cases hd : isSeparator d = true
    · simp [pieces, hd, ih]
    · cases hpieces : pieces isSeparator cs with
      | nil => exact absurd hpieces (pieces_ne_nil cs)
      | cons first others => simp [pieces, hd, ih, hpieces, consHead]

theorem pieces_of_no_separator (hpiece : ∀ d ∈ piece, isSeparator d = false) :
    pieces isSeparator piece = [piece] := by
  induction piece with
  | nil => rfl
  | cons d piece ih =>
    have hd := hpiece d List.mem_cons_self
    have ih := ih fun e he => hpiece e (List.mem_cons_of_mem d he)
    simp [pieces, hd, ih, consHead]

theorem tokens_of_no_separator (hne : piece ≠ []) (hpiece : ∀ d ∈ piece, isSeparator d = false) :
    tokens isSeparator piece = [piece] := by
  unfold tokens
  rw [pieces_of_no_separator hpiece]
  exact List.filter_cons_of_pos (by simp [hne])

theorem tokens_append_separator (hc : isSeparator c = true) (cs : List Char) :
    tokens isSeparator (cs ++ c :: rest) = tokens isSeparator cs ++ tokens isSeparator rest := by
  unfold tokens
  rw [pieces_append hc, List.filter_append]

theorem tokens_append (hne : piece ≠ []) (hpiece : ∀ d ∈ piece, isSeparator d = false)
    (hc : isSeparator c = true) :
    tokens isSeparator (piece ++ c :: rest) = piece :: tokens isSeparator rest := by
  rw [tokens_append_separator hc, tokens_of_no_separator hne hpiece, List.singleton_append]

theorem tokens_separators (h : ∀ d ∈ separators, isSeparator d = true) :
    tokens isSeparator (separators ++ rest) = tokens isSeparator rest := by
  induction separators with
  | nil => rfl
  | cons d separators ih =>
    have hd := h d List.mem_cons_self
    have ih := ih fun e he => h e (List.mem_cons_of_mem d he)
    unfold tokens at ih ⊢
    simp [pieces, hd, ih]

theorem tokens_cons_separator (hc : isSeparator c = true) :
    tokens isSeparator (c :: rest) = tokens isSeparator rest :=
  tokens_separators (List.forall_mem_singleton.2 hc)

/-- Only separators have no token among them. -/
theorem separator_of_tokens {cs : List Char} (h : tokens isSeparator cs = []) :
    ∀ d ∈ cs, isSeparator d = true := by
  induction cs with
  | nil => exact nofun
  | cons d cs ih =>
    by_cases hd : isSeparator d = true
    · rw [tokens_cons_separator hd] at h
      intro e he
      rcases List.mem_cons.1 he with rfl | he
      · exact hd
      · exact ih h e he
    · cases hpieces : pieces isSeparator cs <;> simp [tokens, pieces, hd, hpieces, consHead] at h

/-- In front of the first token there are separators, and behind it are the other tokens. -/
theorem first_token {cs token : List Char} {others : List (List Char)}
    (h : tokens isSeparator cs = token :: others) :
    ∃ before after, cs = before ++ (token ++ after) ∧ (∀ d ∈ before, isSeparator d = true) ∧
      token ≠ [] ∧ (∀ d ∈ token, isSeparator d = false) ∧ tokens isSeparator after = others := by
  have hbefore : ∀ d ∈ cs.takeWhile isSeparator, isSeparator d = true := fun d hd =>
    List.mem_takeWhile_imp hd
  have hstart := List.head?_dropWhile_not isSeparator cs
  have hcut := List.takeWhile_append_dropWhile (p := isSeparator) (l := cs)
  generalize cs.takeWhile isSeparator = before at hbefore hcut
  generalize cs.dropWhile isSeparator = rest at hstart hcut
  have hrest : tokens isSeparator rest = token :: others := by
    rw [← hcut, tokens_separators hbefore] at h
    exact h
  have hsolid : ∀ d ∈ rest.takeWhile fun d => !isSeparator d, isSeparator d = false := by
    intro d hd
    simpa using List.mem_takeWhile_imp hd
  have hne : rest.takeWhile (fun d => !isSeparator d) ≠ [] := by
    cases rest with
    | nil => simp [tokens, pieces] at hrest
    | cons d ds =>
      have hd : isSeparator d = false := by simpa using hstart
      simp [hd]
  have hstop := List.head?_dropWhile_not (fun d => !isSeparator d) rest
  have hword := List.takeWhile_append_dropWhile (p := fun d => !isSeparator d) (l := rest)
  generalize rest.takeWhile (fun d => !isSeparator d) = word at hsolid hne hword
  generalize rest.dropWhile (fun d => !isSeparator d) = after at hstop hword
  have htokens : tokens isSeparator rest = word :: tokens isSeparator after := by
    rw [← hword]
    cases after with
    | nil =>
      rw [List.append_nil, tokens_of_no_separator hne hsolid]
      rfl
    | cons d ds =>
      have hd : isSeparator d = true := by simpa using hstop
      rw [tokens_append hne hsolid hd, tokens_cons_separator hd]
  rw [hrest] at htokens
  obtain ⟨rfl, rfl⟩ := List.cons.inj htokens
  exact ⟨before, after, by rw [hword, hcut], hbefore, hne, hsolid, rfl⟩

/-- Tokens with the same separators between them all. -/
theorem tokens_intercalate {ts : List (List Char)} (hsome : separators ≠ [])
    (h : ∀ d ∈ separators, isSeparator d = true)
    (hts : ∀ t ∈ ts, t ≠ [] ∧ ∀ d ∈ t, isSeparator d = false) :
    tokens isSeparator (List.intercalate separators ts) = ts := by
  induction ts with
  | nil => rfl
  | cons t ts ih =>
    obtain ⟨hne, ht⟩ := hts t List.mem_cons_self
    have ih := ih fun u hu => hts u (List.mem_cons_of_mem t hu)
    cases ts with
    | nil =>
      rw [List.intercalate_singleton]
      exact tokens_of_no_separator hne ht
    | cons u us =>
      obtain ⟨d, ds, rfl⟩ := List.exists_cons_of_ne_nil hsome
      rw [List.intercalate_cons_cons, List.append_assoc, List.cons_append,
        tokens_append hne ht (h d List.mem_cons_self),
        tokens_separators fun e he => h e (List.mem_cons_of_mem d he), ih]

end

/-! ## Lines -/

theorem lines_cons {c : Char} {cs : List Char} (hc : isTerminator c = false) :
    lines (c :: cs) = consHead c (lines cs) := by
  -- the only pair of characters that is one terminator begins with a terminator
  have hne : c ≠ '\r' := by
    rintro rfl
    exact absurd hc (by decide)
  cases cs with
  | nil => simp [lines, hc]
  | cons d cs => simp [lines, hc, hne]

theorem lines_terminator {c : Char} (hc : isTerminator c = true) (rest : List Char) :
    lines (c :: rest) = [] :: lines rest ∨
      ∃ below, rest = '\n' :: below ∧ lines (c :: rest) = [] :: lines below := by
  by_cases hpair : c = '\r' ∧ ∃ below, rest = '\n' :: below
  · obtain ⟨rfl, below, rfl⟩ := hpair
    exact .inr ⟨below, rfl, rfl⟩
  · left
    rw [lines, if_pos hc]
    rintro below rfl rfl
    exact hpair ⟨rfl, below, rfl⟩

/-- A text behind a line that does not end itself goes on with that line. -/
theorem lines_unbroken_append {line : List Char} {c : Char} {rest : List Char}
    (hline : ∀ d ∈ line, isTerminator d = false) (hc : isTerminator c = true) :
    lines (line ++ c :: rest) = line :: (lines (c :: rest)).tail := by
  induction line with
  | nil =>
    rcases lines_terminator hc rest with hlines | ⟨below, -, hlines⟩
    · rw [List.nil_append, hlines]
      rfl
    · rw [List.nil_append, hlines]
      rfl
  | cons d line ih =>
    have ih := ih fun e he => hline e (List.mem_cons_of_mem d he)
    rw [List.cons_append, lines_cons (hline d List.mem_cons_self), ih]
    rfl

theorem lines_append {line rest : List Char} (hline : ∀ c ∈ line, isTerminator c = false) :
    lines (line ++ '\n' :: rest) = line :: lines rest :=
  lines_unbroken_append hline (by decide)

theorem lines_of_no_terminator {line : List Char} (hne : line ≠ [])
    (hline : ∀ c ∈ line, isTerminator c = false) : lines line = [line] := by
  induction line with
  | nil => exact absurd rfl hne
  | cons c line ih =>
    rw [lines_cons (hline c List.mem_cons_self)]
    cases line with
    | nil => rfl
    | cons d line =>
      rw [ih (List.cons_ne_nil d line) fun e he => hline e (List.mem_cons_of_mem c he)]
      rfl

/-- A text is one line, or a line, the terminator behind it and a shorter text. -/
@[elab_as_elim]
theorem line_induction {motive : List Char → Prop}
    (last : ∀ line, (∀ c ∈ line, isTerminator c = false) → motive line)
    (more : ∀ line c rest, (∀ d ∈ line, isTerminator d = false) → isTerminator c = true →
      motive rest → motive (line ++ c :: rest)) (source : List Char) : motive source := by
  induction hn : source.length using Nat.strong_induction_on generalizing source with
  | _ n ih =>
    cases hfind : source.find? isTerminator with
    | none => exact last source (by simpa using List.find?_eq_none.1 hfind)
    | some c =>
      obtain ⟨hc, line, rest, rfl, hline⟩ := List.find?_eq_some_iff_append.1 hfind
      have hshort : rest.length < n := by
        rw [← hn, List.length_append, List.length_cons]
        omega
      exact more line c rest (by simpa using hline) hc (ih _ hshort rest rfl)

theorem lines_ne_nil {c : Char} {cs : List Char} : lines (c :: cs) ≠ [] := by
  by_cases hc : isTerminator c = true
  · rcases lines_terminator hc cs with h | ⟨below, -, h⟩ <;> simp [h]
  · rw [lines_cons (Bool.eq_false_iff.2 hc)]
    cases lines cs <;> simp [consHead]

/-- A text that goes on behind a line feed has the lines of both parts. Between them is an empty
line if the first part is empty or ends a line itself, unless it does so by a carriage return. -/
theorem lines_line_feed (above below : List Char) :
    ∃ gap, (gap = [] ∨ gap = [[]]) ∧
      lines (above ++ '\n' :: below) = lines above ++ (gap ++ lines below) := by
  fun_induction lines above with
  | case1 => exact ⟨[[]], .inr rfl, rfl⟩
  | case2 cs ih =>
    obtain ⟨gap, hgap, hlines⟩ := ih
    exact ⟨gap, hgap, congrArg ([] :: ·) hlines⟩
  | case3 c cs hpair hc ih =>
    obtain ⟨gap, hgap, hlines⟩ := ih
    by_cases hreturn : c = '\r' ∧ cs = []
    · obtain ⟨rfl, rfl⟩ := hreturn
      exact ⟨[], .inl rfl, rfl⟩
    · refine ⟨gap, hgap, ?_⟩
      rw [List.cons_append, lines, if_pos hc, hlines]
      · rfl
      · -- a carriage return before a line feed of its own is the case above
        rintro later rfl htail
        cases cs with
        | nil => exact hreturn ⟨rfl, rfl⟩
        | cons d cs => exact hpair cs rfl (by rw [(List.cons.inj htail).1])
  | case4 c cs hpair hc ih =>
    obtain ⟨gap, hgap, hlines⟩ := ih
    have hsolid : isTerminator c = false := Bool.eq_false_iff.2 hc
    cases cs with
    | nil =>
      refine ⟨[], .inl rfl, ?_⟩
      rw [List.cons_append, lines_cons hsolid]
      rfl
    | cons d cs =>
      refine ⟨gap, hgap, ?_⟩
      rw [List.cons_append, lines_cons hsolid, hlines]
      cases hfirst : lines (d :: cs) with
      | nil => exact absurd hfirst lines_ne_nil
      | cons line ls => rfl

/-- Lines that are joined are told apart again. -/
theorem lines_intercalate {ls : List (List Char)}
    (h : ∀ line ∈ ls, line ≠ [] ∧ ∀ c ∈ line, isTerminator c = false) :
    lines (List.intercalate ['\n'] ls) = ls := by
  induction ls with
  | nil => rfl
  | cons line ls ih =>
    obtain ⟨hne, hline⟩ := h line List.mem_cons_self
    have ih := ih fun other hother => h other (List.mem_cons_of_mem line hother)
    cases ls with
    | nil =>
      rw [List.intercalate_singleton]
      exact lines_of_no_terminator hne hline
    | cons other ls =>
      rw [List.intercalate_cons_cons, List.append_assoc, List.singleton_append,
        lines_append hline, ih]

end Text

/-! ## Comments -/

/-- A comment, or nothing. -/
inductive Comment : List Char → Prop where
  | none : Comment []
  | number (text : List Char) : Comment ('#' :: text)
  | slashes (text : List Char) : Comment ('/' :: '/' :: text)

theorem Comment.beforeComment_eq {comment : List Char} (h : Comment comment) :
    beforeComment comment = [] := by
  cases h <;> rfl

theorem ne_comment_of_isBlank {c : Char} (h : Text.isBlank c = true) : c ≠ '#' ∧ c ≠ '/' := by
  constructor
  · rintro rfl
    exact absurd h (by decide)
  · rintro rfl
    exact absurd h (by decide)

/-- A text in which no comment can begin stands in front of the comments behind it. -/
theorem beforeComment_append {front cs : List Char} (hfront : ∀ c ∈ front, c ≠ '#' ∧ c ≠ '/') :
    beforeComment (front ++ cs) = front ++ beforeComment cs := by
  induction front with
  | nil => rfl
  | cons c front ih =>
    obtain ⟨hnumber, hslash⟩ := hfront c List.mem_cons_self
    have ih := ih fun d hd => hfront d (List.mem_cons_of_mem c hd)
    rw [List.cons_append, beforeComment, ih]
    · rfl
    · exact hnumber
    · exact fun _ h => absurd h hslash

/-- What is put behind a text either stands in its comment or makes it longer. It cannot complete
the mark of a comment unless it begins with a slash. -/
theorem beforeComment_append_cases (cs : List Char) {tail : List Char}
    (htail : tail.head? ≠ some '/') :
    beforeComment (cs ++ tail) = beforeComment cs ∨
      beforeComment (cs ++ tail) = cs ++ beforeComment tail ∧ beforeComment cs = cs := by
  fun_induction beforeComment cs with
  | case1 => exact .inr ⟨rfl, rfl⟩
  | case2 text => exact .inl rfl
  | case3 text => exact .inl rfl
  | case4 c cs hnumber hslashes ih =>
    have hcons : beforeComment (c :: (cs ++ tail)) = c :: beforeComment (cs ++ tail) := by
      rw [beforeComment]
      · exact hnumber
      · intro text hc heq
        cases cs with
        | nil => exact htail (by rw [← List.nil_append tail, heq]; rfl)
        | cons d cs => exact hslashes cs hc (by rw [(List.cons.inj heq).1])
    rw [List.cons_append, hcons]
    rcases ih with hcut | ⟨hlonger, hwhole⟩
    · exact .inl (congrArg (c :: ·) hcut)
    · exact .inr ⟨congrArg (c :: ·) hlonger, congrArg (c :: ·) hwhole⟩

theorem beforeComment_eq_self {cs : List Char} (h : ∀ c ∈ cs, c ≠ '#' ∧ c ≠ '/') :
    beforeComment cs = cs := by
  have happend : beforeComment (cs ++ []) = cs ++ [] := beforeComment_append h
  rwa [List.append_nil] at happend

theorem beforeComment_comment (raw : List Char) :
    ∃ comment, Comment comment ∧ raw = beforeComment raw ++ comment := by
  fun_induction beforeComment raw with
  | case1 => exact ⟨[], .none, rfl⟩
  | case2 text => exact ⟨_, .number text, rfl⟩
  | case3 text => exact ⟨_, .slashes text, rfl⟩
  | case4 c cs _ _ ih =>
    obtain ⟨comment, hcomment, hraw⟩ := ih
    exact ⟨comment, hcomment, congrArg (c :: ·) hraw⟩

/-- White space around a line and a comment behind it make no difference to its code, unless the
slashes of the comment stand right behind the line. -/
theorem codePart_margins {before body after comment : List Char}
    (hbefore : ∀ c ∈ before, Text.isBlank c = true) (hafter : ∀ c ∈ after, Text.isBlank c = true)
    (hcomment : Comment comment) (hapart : after = [] → ∀ text, comment ≠ '/' :: '/' :: text) :
    codePart (before ++ (body ++ (after ++ comment))) = codePart body := by
  have hplain : ∀ {blanks : List Char}, (∀ c ∈ blanks, Text.isBlank c = true) →
      ∀ c ∈ blanks, c ≠ '#' ∧ c ≠ '/' := fun hblanks c hc => ne_comment_of_isBlank (hblanks c hc)
  have hhead : (after ++ comment).head? ≠ some '/' := by
    cases after with
    | nil =>
      cases hcomment with
      | none => nofun
      | number text => simp
      | slashes text => exact absurd rfl (hapart rfl text)
    | cons c after =>
      intro hslash
      exact (hplain hafter c List.mem_cons_self).2 (Option.some.inj hslash)
  have htail : beforeComment (after ++ comment) = after := by
    rw [beforeComment_append (hplain hafter), hcomment.beforeComment_eq, List.append_nil]
  unfold codePart
  rw [beforeComment_append (hplain hbefore)]
  rcases beforeComment_append_cases body hhead with hcut | ⟨hlonger, hwhole⟩
  · have hbare : Text.trim (before ++ (beforeComment body ++ [])) = _ :=
      Text.trim_margins hbefore nofun
    rw [hcut, ← hbare, List.append_nil]
  · rw [hlonger, htail, hwhole]
    exact Text.trim_margins hbefore hafter

/-- Code has a first word. -/
theorem splitWord_codePart {raw : List Char} (h : codePart raw ≠ []) :
    (Text.splitWord (codePart raw)).1.isEmpty = false := by
  have hsolid : Text.isBlank ((codePart raw).getLast h) = false := Text.isBlank_getLast_trim h
  have hsome : Text.trimStart (codePart raw) ≠ [] := by
    intro hnil
    have hblank := List.dropWhile_eq_nil_iff.1 hnil _ (List.getLast_mem h)
    rw [hsolid] at hblank
    cases hblank
  have hfirst := List.head?_dropWhile_not Text.isBlank (codePart raw)
  unfold Text.splitWord
  simp only
  unfold Text.trimStart at hsome ⊢
  cases htext : (codePart raw).dropWhile Text.isBlank with
  | nil => exact absurd htext hsome
  | cons c cs =>
    rw [htext] at hfirst
    simp at hfirst
    simp [hfirst]

/-! ## Memory accesses -/

namespace Operand

theorem isSeparator_of_isBlank {c : Char} (h : Text.isBlank c = true) : isSeparator c = true := by
  unfold isSeparator
  rw [h]
  rfl

theorem isBlank_of_not_isSeparator {c : Char} (h : isSeparator c = false) :
    Text.isBlank c = false := by
  cases hc : Text.isBlank c with
  | false => rfl
  | true => exact absurd (isSeparator_of_isBlank hc) (by simp [h])

theorem afterToken?_append {blanks token rest : List Char}
    (hblanks : ∀ c ∈ blanks, Text.isBlank c = true) (hne : token ≠ [])
    (htoken : ∀ c ∈ token, isSeparator c = false) (hrest : ∀ c ∈ rest.head?, isSeparator c = true) :
    afterToken? (blanks ++ (token ++ rest)) = some (Text.trimStart rest) := by
  have hstart : Text.trimStart (token ++ rest) = token ++ rest := by
    apply Text.trimStart_eq_self
    intro c hc
    rw [List.head?_append_of_ne_nil _ hne] at hc
    exact isBlank_of_not_isSeparator (htoken c (List.mem_of_head? hc))
  have hnot : ∀ c ∈ token, (!isSeparator c) = true := by
    intro c hc
    rw [htoken c hc]
    rfl
  have hstop : ∀ c ∈ rest.head?, (!isSeparator c) = false := by
    intro c hc
    rw [hrest c hc]
    rfl
  unfold afterToken?
  simp only [Text.trimStart_append hblanks, hstart]
  rw [List.takeWhile_append_of_pos hnot, List.dropWhile_append_of_pos hnot,
    Text.dropWhile_eq_self hstop]
  exact if_neg (by simp [hne])

/-- A text without a comma, a comma, a token, and a token between parentheses, with white space
around the two tokens, have the form of a memory access. -/
theorem isMemoryForm_append {first b1 t1 b2 b3 t2 b4 : List Char} (hfirst : first ≠ [])
    (hcomma : ',' ∉ first) (hb1 : ∀ c ∈ b1, Text.isBlank c = true)
    (hne1 : t1 ≠ []) (ht1 : ∀ c ∈ t1, isSeparator c = false)
    (hb2 : ∀ c ∈ b2, Text.isBlank c = true) (hb3 : ∀ c ∈ b3, Text.isBlank c = true)
    (hne2 : t2 ≠ []) (ht2 : ∀ c ∈ t2, isSeparator c = false)
    (hb4 : ∀ c ∈ b4, Text.isBlank c = true) :
    isMemoryForm (first ++ ',' :: (b1 ++ (t1 ++ (b2 ++ '(' :: (b3 ++ (t2 ++ (b4 ++ [')']))))))) =
      true := by
  have hnot : ∀ c ∈ first, decide (c ≠ ',') = true := by
    intro c hc
    exact decide_eq_true fun h => hcomma (h ▸ hc)
  have hopen : ∀ c ∈ (b2 ++ '(' :: (b3 ++ (t2 ++ (b4 ++ [')'])))).head?,
      isSeparator c = true := by
    cases b2 with
    | nil =>
      rintro c ⟨⟩
      decide
    | cons b b2 =>
      rintro c ⟨⟩
      exact isSeparator_of_isBlank (hb2 _ List.mem_cons_self)
  have hclose : ∀ c ∈ (b4 ++ [')']).head?, isSeparator c = true := by
    cases b4 with
    | nil =>
      rintro c ⟨⟩
      decide
    | cons b b4 =>
      rintro c ⟨⟩
      exact isSeparator_of_isBlank (hb4 _ List.mem_cons_self)
  have hbase : afterToken? (b3 ++ (t2 ++ (b4 ++ [')']))) = some [')'] := by
    rw [afterToken?_append hb3 hne2 ht2 hclose, Text.trimStart_append hb4]
    rfl
  have haccess : (afterToken? (b1 ++ (t1 ++ (b2 ++ '(' :: (b3 ++ (t2 ++ (b4 ++ [')']))))))).any
      isBase = true := by
    have hparen : Text.trimStart ('(' :: (b3 ++ (t2 ++ (b4 ++ [')'])))) =
        '(' :: (b3 ++ (t2 ++ (b4 ++ [')']))) := by
      apply Text.trimStart_eq_self
      rintro c ⟨⟩
      decide
    rw [afterToken?_append hb1 hne1 ht1 hopen, Text.trimStart_append hb2, hparen]
    unfold isBase
    simp [hbase]
  -- `first` has no comma, so the cut is at the comma behind it
  unfold isMemoryForm
  rw [List.takeWhile_append_of_pos hnot, List.dropWhile_append_of_pos hnot]
  simp [hfirst, haccess]

end Operand

end SingleCycle
