import SingleCycle.Text.Decimal

/-!
# Options of the simulator

The command line has one program and some options, in any order. An option has a short name of one
letter and a long name, of which a beginning is enough that no other long name has. Short options
without a value can be written as one word, and the last of such a word may take a value. An equals
sign behind the first letter of such a word is passed over; any other belongs to a value. Two dashes
alone end the options; as the rest of the word of an option they are no value, and the option is set
to nothing. What looks like a negative number is no option.
-/

namespace SingleCycle.Simulator

/-- The options without a value. -/
inductive Flag where
  | trace | interactive | verbose | help
  deriving Repr, DecidableEq

/-- The options with a value. -/
inductive Setting where
  | limit | delay
  deriving Repr, DecidableEq

/-- An option. -/
inductive OptionKind where
  /-- One without a value. -/
  | flag (flag : Flag)
  /-- One with a value. -/
  | setting (setting : Setting)
  deriving Repr, DecidableEq

/-- The option with a short name. -/
def shortOption? : Char → Option OptionKind
  | 'h' => some (.flag .help)
  | 'l' => some (.setting .limit)
  | 't' => some (.flag .trace)
  | 'i' => some (.flag .interactive)
  | 'd' => some (.setting .delay)
  | 'v' => some (.flag .verbose)
  | _ => none

/-- The options by their long names, which have two dashes in front of them. -/
def longOptions : List (List Char × OptionKind) :=
  [("help".toList, .flag .help), ("limit".toList, .setting .limit),
   ("trace".toList, .flag .trace), ("interactive".toList, .flag .interactive),
   ("delay".toList, .setting .delay), ("verbose".toList, .flag .verbose)]

/-- The option whose long name, and no other, has a beginning. -/
def longOption? (beginning : List Char) : Option OptionKind :=
  match longOptions.filter fun (name, _) => beginning.isPrefixOf name with
  | [(_, kind)] => some kind
  | _ => none

/-- A word of the command line. -/
inductive Item where
  /-- An argument that is no option. -/
  | word (text : List Char)
  /-- The two dashes that end the options. -/
  | separator
  /-- Options without a value. -/
  | flags (flags : List Flag)
  /-- Options without a value, and one with a value, which may be the next word. -/
  | setting (flags : List Flag) (setting : Setting) (value : Option (List Char))
  deriving Repr, DecidableEq

/-- Why a command line is not carried out. -/
inductive UsageError where
  /-- Help is asked for. -/
  | help
  /-- The command line makes no sense. -/
  | bad
  deriving Repr, DecidableEq

/-- Whether a character is a decimal digit of any script. -/
def isAnyDigit (c : Char) : Bool := (Text.digitValue? c).isSome

/-- Whether the text behind a dash makes it look like a negative number: digits, with a point in
front of at least one of them or without one, and perhaps a line feed. -/
def isNumber (cs : List Char) : Bool :=
  let cs := if cs.getLast? = some '\n' then cs.dropLast else cs
  match cs.dropWhile isAnyDigit with
  | [] => !cs.isEmpty
  | '.' :: rest => !rest.isEmpty && rest.all isAnyDigit
  | _ => false

/-- Puts an option without a value in front of those of a word. -/
def Item.withFlag? (flag : Flag) : Item → Option Item
  | flags others => some (flags (flag :: others))
  | setting others kind value => some (setting (flag :: others) kind value)
  | _ => none

/-- The options that a run of short names writes. What follows the name of an option with a value is
its value. -/
def cluster? : List Char → Option Item
  | [] => some (.flags [])
  | c :: cs =>
    match shortOption? c with
    | none => none
    | some (.setting setting) => some (.setting [] setting (if cs.isEmpty then none else some cs))
    | some (.flag flag) => (cluster? cs).bind (Item.withFlag? flag)

/-- The options that a word of short names writes. An equals sign behind the first name has a value
behind it, or more names. -/
def shortItem? : List Char → Option Item
  | c :: '=' :: rest =>
    match shortOption? c with
    | none => none
    | some (.setting setting) => some (.setting [] setting (some rest))
    | some (.flag flag) => if rest.isEmpty then none else (cluster? rest).bind (Item.withFlag? flag)
  | names => cluster? names

/-- The option that a long name writes, with its value behind an equals sign or without one. -/
def longItem? (cs : List Char) : Option Item :=
  let name := cs.takeWhile (· ≠ '=')
  let value := match cs.dropWhile (· ≠ '=') with
    | _ :: value => some value
    | [] => none
  match longOption? name, value with
  | some (.setting setting), value => some (.setting [] setting value)
  | some (.flag flag), none => some (.flags [flag])
  | _, _ => none

/-- What a word in front of the separator is, unless it looks like an option and is none. -/
def item? (cs : List Char) : Option Item :=
  match cs with
  | '-' :: '-' :: name =>
    match longItem? name with
    | some item => some item
    | none =>
      if (longOptions.any fun (long, _) => (name.takeWhile (· ≠ '=')).isPrefixOf long) then none
      else if cs.contains ' ' then some (.word cs)
      else none
  | '-' :: c :: rest =>
    if (shortOption? c).isSome then shortItem? (c :: rest)
    else if isNumber (c :: rest) || cs.contains ' ' then some (.word cs)
    else none
  | _ => some (.word cs)

/-- The words of a command line, unless one is wrong by itself. -/
def items? : List (List Char) → Option (List Item)
  | [] => some []
  | arg :: args =>
    if arg = ['-', '-'] then some (.separator :: args.map .word)
    else do
      let item ← item? arg
      let items ← items? args
      some (item :: items)

/-- What a command line asks for. -/
structure Options where
  /-- The name of the program file. -/
  program : Option String
  /-- The number of instructions to execute at most; 0 for no such number. -/
  limit : Int
  /-- Whether steps are traced. -/
  trace : Bool
  /-- Whether keys decide what is done. -/
  interactive : Bool
  /-- The time between phases in seconds; phases are shown unless it is zero. -/
  delay : Decimal
  /-- Whether all log records are shown. -/
  verbose : Bool
  deriving Repr, DecidableEq

namespace Options

/-- The options of an empty command line. -/
def default : Options :=
  { program := none
    limit := 0
    trace := false
    interactive := false
    delay := .zero
    verbose := false }

/-- Sets options without a value. -/
def setFlags (options : Options) : List Flag → Except UsageError Options
  | [] => .ok options
  | .help :: _ => .error .help
  | .trace :: flags => setFlags { options with trace := true } flags
  | .interactive :: flags => setFlags { options with interactive := true } flags
  | .verbose :: flags => setFlags { options with verbose := true } flags

/-- The limit that a text writes. Two dashes set none. -/
def limitOf? (value : List Char) : Option Int :=
  if value = ['-', '-'] then some 0 else Integer.ofDecimal? value

/-- The delay that a text writes. Two dashes set none. -/
def delayOf? (value : List Char) : Option Decimal :=
  if value = ['-', '-'] then some .zero else Decimal.read? value

/-- Sets an option to the value that a text writes. -/
def setValue (options : Options) (setting : Setting) (value : List Char) :
    Except UsageError Options :=
  match setting with
  | .limit =>
    match limitOf? value with
    | some limit => .ok { options with limit }
    | none => .error .bad
  | .delay =>
    match delayOf? value with
    | some delay => .ok { options with delay }
    | none => .error .bad

/-- Sets the program, which can be done once. -/
def setProgram (options : Options) (name : List Char) : Except UsageError Options :=
  if options.program.isSome then .error .bad
  else .ok { options with program := some (String.ofList name) }

/-- Follows the words of a command line. The separator stands next to the program, on one side of
it. -/
def follow (options : Options) : List Item → Except UsageError Options
  | [] => .ok options
  | .flags flags :: items => do follow (← options.setFlags flags) items
  | .setting flags setting (some value) :: items => do
    follow (← (← options.setFlags flags).setValue setting value) items
  | .setting flags setting none :: .word value :: items => do
    follow (← (← options.setFlags flags).setValue setting value) items
  | .setting _ _ none :: _ => .error .bad
  | .word name :: .separator :: items => do follow (← options.setProgram name) items
  | .word name :: items => do follow (← options.setProgram name) items
  | .separator :: .word name :: items => do follow (← options.setProgram name) items
  | .separator :: _ => .error .bad

/-- Reads a command line. -/
def read (args : List String) : Except UsageError Options :=
  match items? (args.map String.toList) with
  | none => .error .bad
  | some items => default.follow items

end Options

end SingleCycle.Simulator
