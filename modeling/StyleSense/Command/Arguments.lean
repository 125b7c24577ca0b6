import StyleSense.Settings.Basic

/-!
Contract: the arguments of the command line.

Arguments are read from left to right, and the first one that is wrong or asks for help ends the
reading. An option starts with two dashes and is given at most once; its value follows an equals
sign or is the next argument. After `--` nothing is an option. The options that hold for every
command may stand before or after its name.

Owns:
- `Command` and `Invocation`, what the arguments ask for;
- `Invocation.ofArguments`.

Does not own: the work of a command (`StyleSense.Command.Run`).
-/

namespace StyleSense

/-- What the program can do. -/
inductive Command where
  | symbols (files : List (List Char))
  | colors (files : List (List Char))
  | decorations (files : List (List Char)) (most : Option Nat)
  | complete (file : Path) (line : Nat) (column : Option Nat) (useSeparator : Bool)
  | ast (file : Path)
  | presentations (value : String)
  | watch (directory : Path)
  | serve
deriving DecidableEq, Repr

/-- A command with the options that hold for every command. -/
structure Invocation where
  settingsFile : Option Path
  logLevel : Option LogLevel
  command : Command
deriving DecidableEq, Repr

/-- Why no command is run. -/
inductive Stop where
  | help
  | version
  | misuse
deriving DecidableEq, Repr

namespace Arguments

/-- An option that a command knows. -/
structure Known where
  name : List Char
  /-- The values it accepts; `none` for a switch. -/
  value : Option (List Char → Bool)

/-- What a command knows. -/
structure Grammar where
  options : List Known
  /-- Whether it tells the version of the program. -/
  hasVersion : Bool
  /-- Values that may stand for themselves, and how many of them; `none` for any number. -/
  acceptsPlain : List Char → Bool
  mostPlain : Option Nat

/-- An argument that has been understood. -/
inductive Item where
  | option (name value : List Char)
  | plain (text : List Char)
deriving DecidableEq, Repr

/-- Whether an argument is not a plain value. -/
def isOption : List Char → Bool
  | '-' :: _ :: _ => true
  | _ => false

/-- Whether there is room for one more plain value after `items`. -/
def Grammar.hasRoom (grammar : Grammar) (items : List Item) : Bool :=
  let count := items.countP fun item => match item with
    | .plain _ => true
    | .option .. => false
  grammar.mostPlain.all (count < ·)

/-- Add a plain value. -/
def Grammar.addPlain (grammar : Grammar) (items : List Item) (text : List Char) :
    Except Stop (List Item) :=
  if grammar.hasRoom items && grammar.acceptsPlain text then .ok (items ++ [.plain text])
  else .error .misuse

/-- Add an option with its value. -/
def Grammar.addOption (items : List Item) (name value : List Char) (accepts : List Char → Bool) :
    Except Stop (List Item) :=
  let isGiven := items.any fun item => match item with
    | .option other _ => other == name
    | .plain _ => false
  if isGiven || !accepts value then .error .misuse else .ok (items ++ [.option name value])

/-- The option with a given name. -/
def Grammar.known? (grammar : Grammar) (name : List Char) : Option Known :=
  grammar.options.find? fun known => known.name == name

/-- Add everything that follows `--`. -/
def Grammar.addRest (grammar : Grammar) (items : List Item) :
    List (List Char) → Except Stop (List Item)
  | [] => .ok items
  | text :: rest => do grammar.addRest (← grammar.addPlain items text) rest

/-- The name and the attached value of a long option, which comes without its dashes. -/
private def splitValue (body : List Char) : List Char × Option (List Char) :=
  let name := body.takeWhile (· != '=')
  match body.dropWhile (· != '=') with
  | [] => (name, none)
  | _ :: value => (name, some value)

/-- What a short option asks for. -/
private def shortStop (grammar : Grammar) (letter : Char) : Stop :=
  if letter == 'h' then .help
  else if letter == 'V' && grammar.hasVersion then .version
  else .misuse

/-- Read a long option, which comes without its dashes, in front of the argument `next`. The result
tells whether that argument is its value. -/
def Grammar.readLong (grammar : Grammar) (items : List Item) (body : List Char)
    (next : Option (List Char)) : Except Stop (List Item × Bool) :=
  let (name, attached) := splitValue body
  match grammar.known? name with
  | none =>
    if attached.isSome then .error .misuse
    else if name = "help".toList then .error .help
    else if name = "version".toList && grammar.hasVersion then .error .version
    else .error .misuse
  | some known =>
    match known.value, attached, next with
    | none, some _, _ => .error .misuse
    | none, none, _ => return (← addOption items name [] fun _ => true, false)
    | some accepts, some value, _ => return (← addOption items name value accepts, false)
    | some _, none, none => .error .misuse
    | some accepts, none, some value =>
      if isOption value then .error .misuse
      else return (← addOption items name value accepts, true)

/-- Read arguments after `items`, up to the first plain value when `stopAtPlain`. The result holds
what is left. -/
def Grammar.read (grammar : Grammar) (stopAtPlain : Bool) (items : List Item) :
    List (List Char) → Except Stop (List Item × List (List Char))
  | [] => .ok (items, [])
  | text :: rest =>
    match text with
    | ['-', '-'] =>
      if stopAtPlain then .error .misuse
      else do return (← grammar.addRest items rest, [])
    | '-' :: '-' :: body =>
      match grammar.readLong items body rest.head? with
      | .error stop => .error stop
      | .ok (more, usesNext) =>
        grammar.read stopAtPlain more (if usesNext then rest.tail else rest)
    | '-' :: letter :: _ => .error (shortStop grammar letter)
    | _ =>
      if stopAtPlain then .ok (items, text :: rest)
      else
        match grammar.addPlain items text with
        | .error stop => .error stop
        | .ok more => grammar.read stopAtPlain more rest
termination_by arguments => arguments.length
decreasing_by
  · split
    · simp only [List.length_tail, List.length_cons]
      omega
    · simp
  · simp

/-- The value given for an option. -/
def value? (items : List Item) (name : String) : Option (List Char) :=
  items.findSome? fun item => match item with
    | .option other value => if other = name.toList then some value else none
    | .plain _ => none

/-- The plain values in order. -/
def plains (items : List Item) : List (List Char) :=
  items.filterMap fun item => match item with
    | .plain text => some text
    | .option .. => none

/-- A whole number below `2 ^ 64`, with or without a plus sign. -/
def number? (text : List Char) : Option Nat :=
  let digits := match text with
    | '+' :: rest => rest
    | _ => text
  if !digits.isEmpty && digits.all Char.isDigit then
    let value := digits.foldl (fun n c => n * 10 + (c.toNat - '0'.toNat)) 0
    if value < Nat.pow 2 64 then some value else none
  else none

/-! ## The commands of this program -/

/-- A text that stands for a number. -/
private def isNumber (text : List Char) : Bool :=
  (number? text).isSome

/-- A text that stands for a path. -/
private def isPath (text : List Char) : Bool :=
  !text.isEmpty

/-- A text that names a log level. -/
private def isLevel (text : List Char) : Bool :=
  (LogLevel.ofName? (String.ofList text)).isSome

/-- The options that hold for every command. -/
private def common : List Known :=
  [⟨"config".toList, some isPath⟩, ⟨"log-level".toList, some isLevel⟩]

/-- What may stand before the name of a command. -/
def outer : Grammar :=
  ⟨common, true, fun _ => true, none⟩

/-- What may follow the name of a command. -/
private def inner (options : List Known) (acceptsPlain : List Char → Bool)
    (mostPlain : Option Nat) : Grammar :=
  ⟨common ++ options, false, acceptsPlain, mostPlain⟩

/-- Every text. -/
private def anyText (_ : List Char) : Bool := true

/-- The command with a given name: what it knows, and what it makes of its arguments. -/
def command? : String → Option (Grammar × (List Item → Option Command))
  | "symbols" => some (inner [] anyText none, fun items => (files? items).map .symbols)
  | "colors" => some (inner [] anyText none, fun items => (files? items).map .colors)
  | "decorations" =>
    some (inner [⟨"max".toList, some isNumber⟩] anyText none, fun items =>
      (files? items).map fun files => .decorations files ((value? items "max").bind number?))
  | "complete" =>
    let options : List Known :=
      [⟨"line".toList, some isNumber⟩, ⟨"column".toList, some isNumber⟩,
        ⟨"no-separator".toList, none⟩]
    some (inner options isPath (some 1), fun items => do
      let file ← (plains items).head?
      let line ← (value? items "line").bind number?
      return .complete ⟨file⟩ line ((value? items "column").bind number?)
        (value? items "no-separator").isNone)
  | "ast" =>
    some (inner [] isPath (some 1), fun items => (plains items).head?.map fun file => .ast ⟨file⟩)
  | "presentations" =>
    some (inner [] anyText (some 1), fun items =>
      (plains items).head?.map fun value => .presentations (String.ofList value))
  | "watch" =>
    some (inner [] isPath (some 1), fun items =>
      some (.watch ⟨(plains items).head?.getD ['.']⟩))
  | "lsp" => some (inner [] anyText (some 0), fun _ => some .serve)
  | _ => none
where
  files? (items : List Item) : Option (List (List Char)) :=
    let files := plains items
    if files.isEmpty then none else some files

/-- What `help` with the given topics ends with. -/
private def helpStop : List (List Char) → Stop
  | [] => .help
  | [topic] =>
    let name := String.ofList topic
    if name = "help" || (command? name).isSome then .help else .misuse
  | _ => .misuse

end Arguments

open Arguments in
/-- What the arguments ask for. An option after the name of the command counts more than one before
it. -/
def Invocation.ofArguments (arguments : List (List Char)) : Except Stop Invocation := do
  let (before, rest) ← outer.read true [] arguments
  match rest with
  | [] => .error .misuse
  | name :: others =>
    if name = "help".toList then .error (helpStop others)
    else
      match command? (String.ofList name) with
      | none => .error .misuse
      | some (grammar, build) =>
        let (after, _) ← grammar.read false [] others
        match build after with
        | none => .error .misuse
        | some command =>
          let setting (option : String) : Option (List Char) :=
            value? after option <|> value? before option
          return {
            settingsFile := (setting "config").map Path.mk
            logLevel := (setting "log-level").bind fun level =>
              LogLevel.ofName? (String.ofList level)
            command }

end StyleSense
