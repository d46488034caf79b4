namespace AirRelease

-- Why a command line does not lead to an action.
inductive Halt
  | misuse
  | help
  | version
deriving DecidableEq

-- What may follow an option.
inductive Arity
  | nothing
  | value
  -- Without a value the option has the implied one.
  | optional (implied : String)
  | halt (reason : Halt)

structure CommandOption where
  name : String
  letter : Option Char
  arity : Arity
  -- The names of options that do not go together with this one.
  rivals : List String

structure Operand where
  name : String
  mayBeEmpty : Bool

-- The options that have been given, by their names.
structure Given where
  values : List (String × String)

namespace Given

def empty : Given :=
  ⟨[]⟩

def value? (g : Given) (o : CommandOption) : Option String :=
  g.values.lookup o.name

def Has (g : Given) (o : CommandOption) : Prop :=
  (g.value? o).isSome

instance (g : Given) (o : CommandOption) : Decidable (g.Has o) :=
  inferInstanceAs (Decidable (_ = true))

def add (g : Given) (o : CommandOption) (value : String) : Given :=
  ⟨g.values ++ [(o.name, value)]⟩

def append (g more : Given) : Given :=
  ⟨g.values ++ more.values⟩

-- Whether two options have been given that do not go together.
def Clashes (g : Given) (options : List CommandOption) : Prop :=
  options.any fun o => g.Has o && o.rivals.any fun name => (g.values.lookup name).isSome

instance (g : Given) (options : List CommandOption) : Decidable (g.Clashes options) :=
  inferInstanceAs (Decidable (_ = true))

end Given

-- What a command takes, and what it makes of it.
structure CommandForm (α : Type) where
  options : List CommandOption
  operands : List Operand
  build : Given → Vector String operands.length → α

inductive Grammar (α : Type)
  | command (form : CommandForm α)
  -- Each member has one name or more.
  | group (options : List CommandOption) (members : List (List String × Grammar α))

-- The meanings that a word has by its form.
inductive Word
  | plain (text : String)
  | long (name : String) (value : Option String)
  | letters (cs : List Char)
  -- From here on all words are plain.
  | terminator

def Word.ofText (text : String) : Word :=
  match text.toList with
  | ['-', '-'] => terminator
  | '-' :: '-' :: cs =>
    match cs.span (· ≠ '=') with
    | (name, []) => long (String.ofList name) none
    | (name, _ :: value) => long (String.ofList name) (some (String.ofList value))
  | '-' :: c :: cs => letters (c :: cs)
  | _ => plain text

-- What has been read of a command line, up to the command that is being read.
structure Reading where
  -- What has been given to the groups around the command, and whether it clashes.
  around : Given
  clash : Bool
  given : Given
  operands : List String
  -- An option whose value may follow.
  awaiting : Option CommandOption

namespace Reading

def start : Reading :=
  ⟨.empty, false, .empty, [], none⟩

-- An option can be given once to each command.
def give (r : Reading) (o : CommandOption) (value : String) : Except Halt Reading :=
  if r.given.Has o then .error .misuse
  else .ok { r with given := r.given.add o value, awaiting := none }

-- The option that awaits a value does not get one.
def settle (r : Reading) : Except Halt Reading :=
  match r.awaiting with
  | none => .ok r
  | some o =>
    match o.arity with
    | .optional implied => r.give o implied
    | _ => .error .misuse

def option (r : Reading) (o : CommandOption) (attached : Option String) : Except Halt Reading := do
  let settled ← r.settle
  match o.arity, attached with
  | .nothing, none => settled.give o "true"
  | .halt reason, none => throw reason
  | .nothing, some _ | .halt _, some _ => throw .misuse
  | _, some value => settled.give o value
  | _, none => return { settled with awaiting := some o }

-- Options by their letters. The letters that follow one that takes a value are its value.
def letters (options : List CommandOption) (r : Reading) : List Char → Except Halt Reading
  | [] => .ok r
  | c :: cs =>
    match options.find? (·.letter = some c) with
    | none => .error .misuse
    | some o =>
      match o.arity with
      | .nothing | .halt _ => do letters options (← r.option o none) cs
      | _ => r.option o (attached cs)
where
  attached : List Char → Option String
    | [] => none
    | '=' :: value => some (String.ofList value)
    | value => some (String.ofList value)

def operand (r : Reading) (operands : List Operand) (text : String) : Except Halt Reading := do
  let settled ← r.settle
  match operands[settled.operands.length]? with
  | none => throw .misuse
  | some o =>
    if text = "" ∧ ¬o.mayBeEmpty then throw .misuse
    return { settled with operands := settled.operands ++ [text] }

-- Goes on with a member of the group that has been read.
def enter (r : Reading) (options : List CommandOption) : Reading := {
  around := r.around.append r.given
  clash := r.clash || r.given.Clashes options
  given := .empty
  operands := []
  awaiting := none
}

end Reading

namespace Grammar

variable {α : Type}

def options : Grammar α → List CommandOption
  | command form => form.options
  | group options _ => options

def member? (name : String) : Grammar α → Option (Grammar α)
  | command _ => none
  | group _ members => (members.find? (·.1.contains name)).map (·.2)

-- Help for a member is asked for by the names that lead to it.
def explain (g : Grammar α) : List String → Halt
  | [] => .help
  | name :: rest =>
    match g, g.member? name with
    | _, some member => member.explain rest
    | group _ _, none => if name = "help" ∧ rest = [] then .help else .misuse
    | command _, none => .misuse

-- The command line ends here.
def finish (g : Grammar α) (r : Reading) : Except Halt α := do
  let r ← r.settle
  match g with
  | group _ _ => throw .misuse
  | command form =>
    if r.clash ∨ r.given.Clashes form.options then throw .misuse
    if h : r.operands.length = form.operands.length then
      return form.build (r.around.append r.given) ⟨r.operands.toArray, by simpa using h⟩
    else throw .misuse

def readPlain (g : Grammar α) (r : Reading) (text : String) : Except Halt Reading :=
  match g with
  | group _ _ => .error .misuse
  | command form => r.operand form.operands text

-- Reads the words of a command line. If `literally`, they are all plain. A plain word is the value of
-- the option before it, names a member of the group, or is an operand.
def read (g : Grammar α) (r : Reading) (literally : Bool) : List String → Except Halt α
  | [] => g.finish r
  | text :: rest => do
    if literally then g.read (← g.readPlain r text) true rest
    else match Word.ofText text with
      | .terminator => g.read r true rest
      | .long name value =>
        match g.options.find? (·.name = name) with
        | none => throw .misuse
        | some o => g.read (← r.option o value) false rest
      | .letters cs => g.read (← r.letters g.options cs) false rest
      | .plain text =>
        match r.awaiting, g.member? text with
        | some o, _ => g.read (← r.give o text) false rest
        | none, some member => member.read (r.enter g.options) false rest
        | none, none =>
          match g with
          | group _ _ => throw (if text = "help" then g.explain rest else .misuse)
          | command _ => g.read (← g.readPlain r text) false rest

def ofWords (g : Grammar α) (words : List String) : Except Halt α :=
  g.read .start false words

mutual

-- One line for each command, with the names that lead to it and its operands.
def synopses (path : String) : Grammar α → List String
  | command form => [form.operands.foldl (fun line o => line ++ " <" ++ o.name ++ ">") path]
  | group _ members => synopsesAmong path members

def synopsesAmong (path : String) : List (List String × Grammar α) → List String
  | [] => []
  | (names, member) :: rest =>
    member.synopses (path ++ " " ++ names.headD "") ++ synopsesAmong path rest

end

end Grammar
end AirRelease
