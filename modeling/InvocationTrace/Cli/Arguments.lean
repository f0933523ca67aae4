/-!
# Command-line arguments

Options with and without values, and positional arguments. An option is written `--name` and takes
its value from the next argument or after an equals sign. Only after the sign may a value begin with
a dash, unless it is a single dash. Two dashes end the options. No option may be given twice.
-/

namespace InvocationTrace.Cli

inductive Argument where
  | endOfOptions
  | option (name : String) (value : Option String)
  | letters (letters : List Char)
  | plain (text : String)
  deriving DecidableEq

/-- The name and the value of an option without its dashes. -/
def splitOption (cs : List Char) : Argument :=
  match cs.dropWhile (· != '=') with
  | [] => .option (String.ofList cs) none
  | _ :: value => .option (String.ofList (cs.takeWhile (· != '='))) (some (String.ofList value))

def Argument.ofString (s : String) : Argument :=
  match s.toList with
  | ['-'] => .plain s
  | ['-', '-'] => .endOfOptions
  | '-' :: '-' :: cs => splitOption cs
  | '-' :: cs => .letters cs
  | _ => .plain s

/-- What a command accepts: options that are only given, options with a value, and how many
positional arguments. -/
structure Grammar where
  flags : List String
  valued : List String
  positionals : Nat

structure Given where
  flags : List String := []
  values : List (String × String) := []
  positionals : List String := []
  deriving DecidableEq

namespace Given

def hasFlag (g : Given) (name : String) : Bool := g.flags.contains name

def value? (g : Given) (name : String) : Option String := g.values.lookup name

/-- Adds an option with a value, once. -/
def addValue (g : Given) (name value : String) : Option Given :=
  if (g.value? name).isSome then none else some { g with values := (name, value) :: g.values }

/-- Adds an option without a value, once. -/
def addFlag (g : Given) (name : String) : Option Given :=
  if g.hasFlag name then none else some { g with flags := name :: g.flags }

/-- Adds positional arguments, if the grammar has places for them. -/
def addPositionals (g : Given) (grammar : Grammar) (texts : List String) : Option Given :=
  if grammar.positionals < g.positionals.length + texts.length then none
  else some { g with positionals := g.positionals ++ texts }

end Given

/-- Reads arguments by a grammar; absent if they do not follow it. -/
def Grammar.read? (grammar : Grammar) (g : Given) : List String → Option Given
  | [] => some g
  | arg :: args =>
      match Argument.ofString arg with
      | .endOfOptions => g.addPositionals grammar args
      | .plain text =>
          match g.addPositionals grammar [text] with
          | none => none
          | some g => grammar.read? g args
      | .letters _ => none
      | .option name (some value) =>
          if grammar.valued.contains name then
            match g.addValue name value with
            | none => none
            | some g => grammar.read? g args
          else none
      | .option name none =>
          if grammar.flags.contains name then
            match g.addFlag name with
            | none => none
            | some g => grammar.read? g args
          else if grammar.valued.contains name then
            match args with
            | [] => none
            | next :: args =>
                match Argument.ofString next with
                | .plain value =>
                    match g.addValue name value with
                    | none => none
                    | some g => grammar.read? g args
                | _ => none
          else none

end InvocationTrace.Cli
