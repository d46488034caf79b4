import AirRelease.Yaml.Token

namespace AirRelease

-- A text that stops being YAML at some point still gives the tree up to there, with `broken` in the place
-- of what could not be read.
inductive Yaml
  | scalar (text : String) (plain : Bool) (tag : Option String)
  | sequence (items : List Yaml)
  | mapping (members : List (Yaml × Yaml))
  -- An alias for a node that it is inside of.
  | enclosing
  | broken

namespace Yaml

instance : Inhabited Yaml :=
  ⟨broken⟩

-- What stands where nothing is written.
def nothing : Yaml :=
  scalar "" true none

-- The tokens that are left. An anchor names the node that it was last put before, which is known once
-- the node has been read.
structure Source where
  tokens : List Token
  handles : List (String × String)
  anchors : List (String × Nat)
  nodes : List (Nat × Yaml)

namespace Source

def rest (s : Source) (tokens : List Token) : Source :=
  { s with tokens }

def openNode (s : Source) : Option String → Source
  | none => s
  | some name => { s with anchors := (name, s.anchors.length) :: s.anchors }

-- The node that the number `id` was given to has been read.
def closeNode (s : Source) (anchor : Option String) (id : Nat) (y : Yaml) : Source :=
  if anchor.isSome then { s with nodes := (id, y) :: s.nodes } else s

def aliased? (s : Source) (name : String) : Option Yaml :=
  (s.anchors.lookup name).map fun id => (s.nodes.lookup id).getD enclosing

def resolve? (s : Source) (t : Token) : Option String :=
  match t with
  | .tag t => if t.handle = "" then some t.suffix else (s.handles.lookup t.handle).map (· ++ t.suffix)
  | _ => none

end Source

-- What a node is given in front of it.
structure Properties where
  anchor : Option String
  tag : Option String

-- An anchor and a tag, in any order. There is none for a tag with an unknown handle.
def properties? (s : Source) : Option (Properties × Source) :=
  match s.tokens with
  | .anchor a :: t@(.tag _) :: rest | t@(.tag _) :: .anchor a :: rest =>
    (s.resolve? t).map fun tag => (⟨some a, some tag⟩, s.rest rest)
  | .anchor a :: rest => some (⟨some a, none⟩, s.rest rest)
  | t@(.tag _) :: rest => (s.resolve? t).map fun tag => (⟨none, some tag⟩, s.rest rest)
  | _ => some (⟨none, none⟩, s)

-- Where a node stands decides which collections it may be.
inductive Context
  | flow
  | block
  -- A block sequence may begin without further indentation.
  | member
deriving DecidableEq

-- What has been read, and the rest unless it is damaged.
abbrev Read (α : Type) := α × Option Source

def Read.map (f : α → β) (r : Read α) : Read β :=
  (f r.1, r.2)

mutual

def readNode (context : Context) (s : Source) : Nat → Read Yaml
  | 0 => (broken, none)
  | fuel + 1 =>
    match s.tokens with
    | .reference name :: rest =>
      match s.aliased? name with
      | some y => (y, s.rest rest)
      | none => (broken, none)
    | _ =>
      match properties? s with
      | none => (broken, none)
      | some (p, opened) =>
        let (y, s') := readContent context p (opened.openNode p.anchor) fuel
        (y, s'.map fun s' => s'.closeNode p.anchor s.anchors.length y)

def readContent (context : Context) (p : Properties) (s : Source) : Nat → Read Yaml
  | 0 => (broken, none)
  | fuel + 1 =>
    match context, s.tokens with
    | _, [] => (broken, none)
    | .member, .blockEntry :: _ => (readLevelItems s fuel).map sequence
    | _, .scalar text plain :: rest => (scalar text plain p.tag, s.rest rest)
    | _, .flowSequenceStart :: rest => (readFlowItems true (s.rest rest) fuel).map sequence
    | _, .flowMappingStart :: rest => (readFlowMembers true (s.rest rest) fuel).map mapping
    | .block, .blockSequenceStart :: rest | .member, .blockSequenceStart :: rest =>
      (readBlockItems (s.rest rest) fuel).map sequence
    | .block, .blockMappingStart :: rest | .member, .blockMappingStart :: rest =>
      (readBlockMembers (s.rest rest) fuel).map mapping
    | _, _ =>
      if p.anchor.isSome || p.tag.isSome then (scalar "" true p.tag, s) else (broken, none)

def readBlockItems (s : Source) : Nat → Read (List Yaml)
  | 0 => ([broken], none)
  | fuel + 1 =>
    match s.tokens with
    | .blockEntry :: rest =>
      match rest with
      | [] => ([broken], none)
      | .blockEntry :: _ | .blockEnd :: _ => (readBlockItems (s.rest rest) fuel).map (nothing :: ·)
      | _ =>
        match readNode .block (s.rest rest) fuel with
        | (y, none) => ([y], none)
        | (y, some s) => (readBlockItems s fuel).map (y :: ·)
    | .blockEnd :: rest => ([], s.rest rest)
    | _ => ([broken], none)

-- The items of a sequence that is indented like the mapping around it.
def readLevelItems (s : Source) : Nat → Read (List Yaml)
  | 0 => ([broken], none)
  | fuel + 1 =>
    match s.tokens with
    | [] => ([broken], none)
    | .blockEntry :: rest =>
      match rest with
      | [] => ([broken], none)
      | .blockEntry :: _ | .key :: _ | .value :: _ | .blockEnd :: _ =>
        (readLevelItems (s.rest rest) fuel).map (nothing :: ·)
      | _ =>
        match readNode .block (s.rest rest) fuel with
        | (y, none) => ([y], none)
        | (y, some s) => (readLevelItems s fuel).map (y :: ·)
    | _ => ([], s)

def readBlockMembers (s : Source) : Nat → Read (List (Yaml × Yaml))
  | 0 => ([(broken, broken)], none)
  | fuel + 1 =>
    match s.tokens with
    | .key :: rest =>
      match readBlockPart (s.rest rest) fuel with
      | (k, none) => ([(k, broken)], none)
      | (k, some s) => readBlockValue k s fuel
    | .value :: _ => readBlockValue nothing s fuel
    | .blockEnd :: rest => ([], s.rest rest)
    | _ => ([(broken, broken)], none)

-- The value of a key and the members after it.
def readBlockValue (k : Yaml) (s : Source) : Nat → Read (List (Yaml × Yaml))
  | 0 => ([(k, broken)], none)
  | fuel + 1 =>
    match s.tokens with
    | [] => ([(k, broken)], none)
    | .value :: rest =>
      match readBlockPart (s.rest rest) fuel with
      | (v, none) => ([(k, v)], none)
      | (v, some s) => (readBlockMembers s fuel).map ((k, v) :: ·)
    | _ => (readBlockMembers s fuel).map ((k, nothing) :: ·)

-- A key or a value of a block mapping, which may be missing.
def readBlockPart (s : Source) : Nat → Read Yaml
  | 0 => (broken, none)
  | fuel + 1 =>
    match s.tokens with
    | [] => (broken, none)
    | .key :: _ | .value :: _ | .blockEnd :: _ => (nothing, s)
    | _ => readNode .member s fuel

-- Items are separated by commas. One may also follow the last item.
def readFlowItems (isFirst : Bool) (s : Source) : Nat → Read (List Yaml)
  | 0 => ([broken], none)
  | fuel + 1 =>
    match isFirst, s.tokens with
    | _, .flowSequenceEnd :: rest => ([], s.rest rest)
    | true, _ => readFlowItem s fuel
    | false, .flowEntry :: .flowSequenceEnd :: rest => ([], s.rest rest)
    | false, .flowEntry :: rest => readFlowItem (s.rest rest) fuel
    | false, _ => ([broken], none)

def readFlowItem (s : Source) : Nat → Read (List Yaml)
  | 0 => ([broken], none)
  | fuel + 1 =>
    let (y, s) := match s.tokens with
      | .key :: rest => (readPair (s.rest rest) fuel).map fun member => mapping [member]
      | _ => readNode .flow s fuel
    match s with
    | none => ([y], none)
    | some s => (readFlowItems false s fuel).map (y :: ·)

-- A mapping of one member among the items of a flow sequence. Where the key is missing, the mark in its
-- place does not count.
def readPair (s : Source) : Nat → Read (Yaml × Yaml)
  | 0 => ((broken, broken), none)
  | fuel + 1 =>
    let (k, s) := match s.tokens with
      | .value :: rest | .flowEntry :: rest | .flowSequenceEnd :: rest => (nothing, some (s.rest rest))
      | _ => readNode .flow s fuel
    match s with
    | none => ((k, broken), none)
    | some s =>
      match s.tokens with
      | [] | [.value] => ((k, broken), none)
      | .value :: rest =>
        match rest with
        | .flowEntry :: _ | .flowSequenceEnd :: _ => ((k, nothing), s.rest rest)
        | _ => (readNode .flow (s.rest rest) fuel).map (k, ·)
      | _ => ((k, nothing), s)

def readFlowMembers (isFirst : Bool) (s : Source) : Nat → Read (List (Yaml × Yaml))
  | 0 => ([(broken, broken)], none)
  | fuel + 1 =>
    match isFirst, s.tokens with
    | _, .flowMappingEnd :: rest => ([], s.rest rest)
    | true, _ => readFlowMember s fuel
    | false, .flowEntry :: .flowMappingEnd :: rest => ([], s.rest rest)
    | false, .flowEntry :: rest => readFlowMember (s.rest rest) fuel
    | false, _ => ([(broken, broken)], none)

-- A member that does not begin with a key mark is a key without a value.
def readFlowMember (s : Source) : Nat → Read (List (Yaml × Yaml))
  | 0 => ([(broken, broken)], none)
  | fuel + 1 =>
    match s.tokens with
    | .key :: rest =>
      let (k, s) := match rest with
        | .value :: _ | .flowEntry :: _ | .flowMappingEnd :: _ => (nothing, some (s.rest rest))
        | _ => readNode .flow (s.rest rest) fuel
      match s with
      | none => ([(k, broken)], none)
      | some s =>
        let (v, s) := match s.tokens with
          | [] | [.value] => (broken, none)
          | .value :: rest =>
            match rest with
            | .flowEntry :: _ | .flowMappingEnd :: _ => (nothing, some (s.rest rest))
            | _ => readNode .flow (s.rest rest) fuel
          | _ => (nothing, some s)
        match s with
        | none => ([(k, v)], none)
        | some s => (readFlowMembers false s fuel).map ((k, v) :: ·)
    | _ =>
      match readNode .flow s fuel with
      | (k, none) => ([(k, broken)], none)
      | (k, some s) => (readFlowMembers false s fuel).map ((k, nothing) :: ·)

end

def standardHandles : List (String × String) :=
  [("!", "!"), ("!!", "tag:yaml.org,2002:")]

-- The directives before a document. The version is given at most once, and so is every handle.
def directives? (handles : List (String × String)) (versioned : Bool) :
    List Token → Option (List (String × String) × List Token)
  | .directive (.version major minor) :: rest =>
    if !versioned && major = 1 && (minor = 1 || minor = 2) then directives? handles true rest else none
  | .directive (.handle name start) :: rest =>
    if handles.any (·.1 = name) then none else directives? ((name, start) :: handles) versioned rest
  | rest => some (handles, rest)

-- Whether the tokens end after the document.
def atEnd : List Token → Bool
  | .documentEnd :: rest => atEnd rest
  | .streamEnd :: _ => true
  | _ => false

-- The only document of a stream and whether it is followed by nothing else.
def readDocument (explicit : Bool) (s : Source) : Yaml × Bool :=
  let (y, s) := match explicit, s.tokens with
    | true, .directive _ :: _ | true, .documentStart :: _ | true, .documentEnd :: _
    | true, .streamEnd :: _ => (nothing, some s)
    | _, _ => readNode .block s (5 * s.tokens.length + 5)
  (y, s.any (atEnd ·.tokens))

def ofTokens (tokens : List Token) : Yaml × Bool :=
  match tokens with
  | [.streamEnd] => (nothing, true)
  | .directive _ :: _ | .documentStart :: _ =>
    match directives? [] false tokens with
    | some (handles, .documentStart :: rest) => readDocument true ⟨rest, handles ++ standardHandles, [], []⟩
    | _ => (broken, false)
  | _ => readDocument false ⟨tokens, standardHandles, [], []⟩

def ofText (text : String) : Yaml × Bool :=
  ofTokens (Token.ofText text)

end Yaml
end AirRelease
