/-
Arguments of a command line.

The words of a command line are options, with or without a value, and operands.  An option is called
by its name after two hyphens or, if it has one, by its letter after one; letters may be joined.  The
value of an option is the next word or what follows the name after an equals sign.  After two hyphens
alone, every word is an operand.

* `Parameter`, `Level` — what may be given;
* `read` — what is given, and the command with the words that belong to it;
* `Given.orEnvironment` — what the environment gives besides.

Design notes:
* the words are read from left to right, and the first that makes no sense, or asks for help or for
  the version, ends the matter;
* a word that begins with a hyphen is no value, unless it is the hyphen alone or stands after an
  equals sign;
* the value that stands before a command is weighed after the words of the command.
-/
namespace Wireframe.Command

/-- What can be given by an option. -/
structure Parameter where
  name : String
  letter : Option Char := none
  /-- The values that it may have, if it has one. -/
  value : Option (String → Bool) := none
  /-- It may be given more than once. -/
  repeats : Bool := false
  /-- The variable of the environment that gives it if no option does. -/
  variableName : Option String := none

/-- What may be given in one place of a command line. -/
structure Level where
  parameters : List Parameter
  /-- The values that operands may have, one after the other. -/
  operands : List (String → Bool) := []
  /-- The commands to which the rest of the words may belong. -/
  commands : List String := []

/-- What ends a command line early. -/
inductive Stop
  | help
  | version
  /-- The words make no sense. -/
  | refused
deriving DecidableEq, Repr, Inhabited

/-- What is given by options and operands, in their order. -/
structure Given where
  options : List (String × String) := []
  operands : List String := []
deriving Repr, DecidableEq, Inhabited

namespace Given

/-- The option is given. -/
def has (given : Given) (name : String) : Bool := given.options.any (·.1 == name)

/-- The value of an option. -/
def value? (given : Given) (name : String) : Option String := given.options.lookup name

/-- All values of an option. -/
def values (given : Given) (name : String) : List String :=
  (given.options.filter (·.1 == name)).map (·.2)

/-- The option is given once more. -/
def add (given : Given) (parameter : Parameter) (value : String) : Except Stop Given :=
  if given.has parameter.name && !parameter.repeats then .error .refused
  else if !(parameter.value.getD fun _ => true) value then .error .refused
  else .ok { given with options := given.options ++ [(parameter.name, value)] }

/-- What was held back is given, too. -/
def addLate (given : Given) : Option (Parameter × String) → Except Stop Given
  | some (parameter, value) => given.add parameter value
  | none => .ok given

/-- One more operand is given. -/
def addOperand (level : Level) (given : Given) (word : String) : Except Stop Given :=
  match level.operands[given.operands.length]? with
  | some allows =>
      if allows word then .ok { given with operands := given.operands ++ [word] }
      else .error .refused
  | none => .error .refused

end Given

/-- The parameter of a name. -/
def Level.named? (level : Level) (name : String) : Option Parameter :=
  level.parameters.find? (·.name == name)

/-- The parameter of a letter. -/
def Level.lettered? (level : Level) (letter : Char) : Option Parameter :=
  level.parameters.find? (·.letter == some letter)

/-- The text before an equals sign and the text after it, if there is one. -/
def splitEquals (cs : List Char) : String × Option String :=
  (String.ofList (cs.takeWhile (· != '=')),
    ((cs.dropWhile (· != '=')).tail?).map String.ofList)

/-- What is given by an option that is called by its name, and the parameter that waits for its
value. -/
def readNamed (level : Level) (given : Given) (cs : List Char) :
    Except Stop (Given × Option Parameter) :=
  let (name, value) := splitEquals cs
  match level.named? name with
  | some parameter =>
      match parameter.value, value with
      | none, none => do return (← given.add parameter "", none)
      | none, some _ => .error .refused
      | some _, some value => do return (← given.add parameter value, none)
      | some _, none => .ok (given, some parameter)
  | none =>
      if value.isSome then .error .refused
      else if name = "help" then .error .help
      else if name = "version" then .error .version
      else .error .refused

/-- What is given by joined letters, and the parameter that waits for its value. -/
def readLetters (level : Level) (given : Given) :
    List Char → Except Stop (Given × Option Parameter)
  | [] => .ok (given, none)
  | c :: rest =>
      match level.lettered? c with
      | some parameter =>
          if parameter.value.isNone then do readLetters level (← given.add parameter "") rest
          else
            match rest with
            | [] => .ok (given, some parameter)
            | '=' :: value => do return (← given.add parameter (String.ofList value), none)
            | value => do return (← given.add parameter (String.ofList value), none)
      | none =>
          if c = 'h' then .error .help
          else if c = 'V' then .error .version
          else .error .refused

/-- A word that begins with a hyphen and is not the hyphen alone. -/
def isOption (word : String) : Bool :=
  match word.toList with
  | '-' :: rest => !rest.isEmpty
  | _ => false

/-- A command, and what belongs to it. -/
structure Call where
  name : String
  /-- The words after the command. -/
  words : List String
  /-- The option right before the command and its value, which has not been weighed yet. -/
  late : Option (Parameter × String) := none

/-- The command that the words begin with. -/
def Level.call? (level : Level) (late : Option (Parameter × String)) : List String → Option Call
  | [] => none
  | word :: words => if level.commands.contains word then some { name := word, words, late } else none

/-- What the words give, after what has been given and with a parameter that waits for its value;
and the command among them.  All words are operands if `plain` holds. -/
def readFrom (level : Level) (given : Given) (waiting : Option Parameter) (plain : Bool) :
    List String → Except Stop (Given × Option Call)
  | [] => if waiting.isSome then .error .refused else .ok (given, none)
  | word :: rest =>
      match waiting with
      | some parameter =>
          if isOption word then .error .refused
          else
            -- whether the value is any good is told only after the command has been found
            match level.call? (some (parameter, word)) rest with
            | some call => .ok (given, some call)
            | none => do readFrom level (← given.add parameter word) none false rest
      | none =>
          if plain then do readFrom level (← given.addOperand level word) none true rest
          else
            match level.call? none (word :: rest), word.toList with
            | some call, _ => .ok (given, some call)
            | none, ['-', '-'] => readFrom level given none true rest
            | none, '-' :: '-' :: name => do
                let (given, waiting) ← readNamed level given name
                readFrom level given waiting false rest
            | none, '-' :: c :: letters => do
                let (given, waiting) ← readLetters level given (c :: letters)
                readFrom level given waiting false rest
            | none, _ => do readFrom level (← given.addOperand level word) none false rest

/-- What the words give, and the command among them. -/
def read (level : Level) (words : List String) : Except Stop (Given × Option Call) :=
  readFrom level {} none false words

/-- What the variables of the environment give besides. -/
def Given.orEnvironment (given : Given) (environment : List (String × String)) :
    List Parameter → Except Stop Given
  | [] => .ok given
  | parameter :: rest => do
      let value := if given.has parameter.name then none
        else parameter.variableName.bind fun name => environment.lookup name
      let more ← match value with
        | some value => given.add parameter value
        | none => .ok given
      more.orEnvironment environment rest

end Wireframe.Command
