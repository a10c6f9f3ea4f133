import Immutability.Toml.Scalar
import Immutability.Toml.Table
import Immutability.Toml.Text

/-! Reading a TOML text.

    A text is a sequence of lines, each of which is empty or holds a header, or a key and its value; a
    value may run over several lines inside brackets and long quotes. -/

namespace Immutability.Toml

/-! ### Blanks -/

/-- Drops spaces and tabs. -/
def skipBlanks (s : List Char) : List Char := s.dropWhile isBlank

/-- The input after a newline at its start. -/
def newline? : List Char → Option (List Char)
  | '\n' :: rest => some rest
  | '\r' :: '\n' :: rest => some rest
  | _ => none

/-- The input after a comment, if one starts it. -/
def skipComment : List Char → List Char
  | '#' :: rest => rest.dropWhile isPlain
  | s => s

/-- The input after the end of a line, which may be blank, then a comment, then a newline or the end
    of the input. -/
def endLine (s : List Char) : Option (List Char) :=
  match skipComment (skipBlanks s) with
  | [] => some []
  | s => newline? s

/-- Drops blanks, comments and newlines inside brackets. A comment has to end in a newline. -/
def skipLines : (fuel : Nat) → List Char → List Char
  | 0, s => s
  | fuel + 1, s =>
    let s := skipBlanks s
    match newline? (skipComment s) with
    | some rest => skipLines fuel rest
    | none => s

/-! ### Keys -/

/-- The number of nested brackets, and of keys in a path, that is too great. -/
def limit : Nat := 80

/-- The key at the start of the input, and what follows it. -/
def scanKey (s : List Char) : Option (String × List Char) :=
  match s with
  | '"' :: rest => (scanBasic rest).map fun (cs, rest) => (String.ofList cs, rest)
  | '\x27' :: rest => (scanLiteral rest).map fun (cs, rest) => (String.ofList cs, rest)
  | s =>
    let cs := s.takeWhile isBareKeyChar
    if cs.isEmpty then none else some (String.ofList cs, s.dropWhile isBareKeyChar)

/-- The keys at the start of the input, separated by dots, and what follows them. Blanks around keys
    do not matter. -/
def scanKeys : (fuel : Nat) → List Char → Option (List String × List Char)
  | 0, _ => none
  | fuel + 1, s =>
    match scanKey (skipBlanks s) with
    | none => none
    | some (key, rest) =>
      match skipBlanks rest with
      | '.' :: rest => (scanKeys fuel rest).map fun (keys, rest) => (key :: keys, rest)
      | rest => some ([key], rest)

/-- A path at the start of the input: the keys before the last one, the last one, and what follows. -/
def scanPath (s : List Char) : Option (List String × String × List Char) :=
  match scanKeys limit s with
  | some (keys, rest) =>
    match keys.getLast? with
    | some key => if keys.length < limit then some (keys.dropLast, key, rest) else none
    | none => none
  | none => none

/-! ### Values -/

mutual

/-- The value at the start of the input, inside `depth` brackets, and what follows it. -/
def scanValue (fuel depth : Nat) (s : List Char) : Option (Value × List Char) :=
  match fuel with
  | 0 => none
  | fuel + 1 =>
    match s with
    | '[' :: rest =>
      if depth + 1 < limit then
        (scanItems fuel (depth + 1) rest).map fun (vs, rest) => (.sequence vs false, rest)
      else none
    | '\x7b' :: rest =>
      if depth + 1 < limit then
        match skipBlanks rest with
        | '\x7d' :: rest => some (.table [], rest)
        | rest =>
          match scanPairs fuel (depth + 1) rest with
          | some (pairs, rest) =>
            (inlineTable pairs []).map fun entries => (.table (finishEntries entries), rest)
          | none => none
      else none
    | '"' :: _ => (scanText s).map fun (cs, rest) => (.text (String.ofList cs), rest)
    | '\x27' :: _ => (scanText s).map fun (cs, rest) => (.text (String.ofList cs), rest)
    | s => scanScalar s

/-- The items of a sequence up to its closing bracket, and what follows that. A comma may stand behind
    the last item. -/
def scanItems (fuel depth : Nat) (s : List Char) : Option (List Value × List Char) :=
  match fuel with
  | 0 => none
  | fuel + 1 =>
    match skipLines fuel s with
    | ']' :: rest => some ([], rest)
    | s =>
      match scanValue fuel depth s with
      | none => none
      | some (v, rest) =>
        match skipLines fuel rest with
        | ',' :: rest => (scanItems fuel depth rest).map fun (vs, rest) => (v :: vs, rest)
        | ']' :: rest => some ([v], rest)
        | _ => none

/-- The pairs of a table between braces up to the closing brace, and what follows that. -/
def scanPairs (fuel depth : Nat) (s : List Char) :
    Option (List (List String × String × Value) × List Char) :=
  match fuel with
  | 0 => none
  | fuel + 1 =>
    match scanPath s with
    | some (path, key, '=' :: rest) =>
      match scanValue fuel depth (skipBlanks rest) with
      | none => none
      | some (v, rest) =>
        match skipBlanks rest with
        | ',' :: rest =>
          (scanPairs fuel depth rest).map fun (pairs, rest) => ((path, key, v) :: pairs, rest)
        | '\x7d' :: rest => some ([(path, key, v)], rest)
        | _ => none
    | _ => none

end

/-! ### Statements -/

/-- The statement at the start of the input, which is neither blank nor a comment, and the input after
    its line. -/
def scanStatement (s : List Char) : Option (Statement × List Char) :=
  match s with
  | '[' :: '[' :: rest =>
    match scanPath rest with
    | some (path, key, ']' :: ']' :: rest) =>
      (endLine rest).map fun rest => (.nextHeader path key, rest)
    | _ => none
  | '[' :: rest =>
    match scanPath rest with
    | some (path, key, ']' :: rest) => (endLine rest).map fun rest => (.header path key, rest)
    | _ => none
  | s =>
    match scanPath s with
    | some (path, key, '=' :: rest) =>
      match scanValue (2 * rest.length + 2) 0 (skipBlanks rest) with
      | some (v, rest) => (endLine rest).map fun rest => (.assignment path key v, rest)
      | none => none
    | _ => none

/-- The statements of a text. A line without a statement is passed over. -/
def scanStatements : (fuel : Nat) → List Char → Option (List Statement)
  | 0, _ => none
  | fuel + 1, s =>
    match skipBlanks s with
    | [] => some []
    | c :: rest =>
      if c = '#' ∨ c = '\n' ∨ c = '\r' then (endLine (c :: rest)).bind (scanStatements fuel)
      else
        match scanStatement (c :: rest) with
        | some (statement, rest) => (scanStatements fuel rest).map (statement :: ·)
        | none => none

/-- Drops the mark that some writers put in front of a text. -/
def dropMark : List Char → List Char
  | '\ufeff' :: s => s
  | s => s

/-- The entries of a whole text. -/
def read (s : String) : Option (List (String × Value)) :=
  let cs := dropMark s.toList
  match scanStatements (cs.length + 1) cs with
  | some statements => (Draft.takeAll statements {}).map fun d => finishEntries d.root
  | none => none

end Immutability.Toml
