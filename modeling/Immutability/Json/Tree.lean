import Immutability.Json.Token

/-! The tree of a JSON text, as far as the text goes.

    A tree keeps everything up to the first fault of the text in its place, so a reader that walks it
    in order meets the faults of the text in the order of the text. Every token takes the builder from
    one state to the next; the state holds the open containers from the innermost outwards. -/

namespace Immutability.Json

/-- A JSON text up to its first fault. Containers keep their contents in the order of the text. A key
    whose literal spells no text is kept as nothing, since a reader that passes over its table accepts
    it. -/
inductive Tree where
  | null
  | boolean (value : Bool)
  | numeral (value : Numeral)
  | text (value : String)
  | unpaired
  | sequence (items : List Tree) (closed : Bool)
  | table (members : List (Option String × Tree)) (closed : Bool)
  /-- The text has its fault where a value was due. -/
  | broken

/-- An open container with what it holds so far, the last first. In a table the value of `key` is
    due. -/
inductive Frame where
  | items (done : List Tree)
  | members (done : List (Option String × Tree)) (key : Option String)

/-- What may come next. -/
inductive State where
  /-- A value is due. -/
  | value (stack : List Frame)
  /-- A sequence has been opened: its first item or its end is due. -/
  | opened (stack : List Frame)
  /-- A key is due, in a table that holds the given members. -/
  | key (done : List (Option String × Tree)) (stack : List Frame)
  /-- The colon after a key is due. -/
  | colon (done : List (Option String × Tree)) (key : Option String) (stack : List Frame)
  /-- A value is complete: what follows it is due. -/
  | after (value : Tree) (stack : List Frame)
  /-- The text had its fault. -/
  | failed (tree : Tree)

/-- The tree of an innermost value and the containers around it, none of which is closed. -/
def collapse (value : Tree) : List Frame → Tree
  | [] => value
  | .items done :: stack => collapse (.sequence (value :: done).reverse false) stack
  | .members done key :: stack => collapse (.table ((key, value) :: done).reverse false) stack

/-- The value that a token spells by itself. -/
def Tree.ofToken? : Token → Option Tree
  | .null => some .null
  | .boolean b => some (.boolean b)
  | .numeral n => some (.numeral n)
  | .text s => some (.text s)
  | .unpaired => some .unpaired
  | _ => none

/-- The state after the first token of a value. -/
def begin (stack : List Frame) : Token → State
  | .openSequence => .opened stack
  | .openTable => .key [] stack
  | token =>
    match Tree.ofToken? token with
    | some tree => .after tree stack
    | none => .failed (collapse .broken stack)

/-- The state after a token that stands where a key is due. A table may end only before its first
    key. -/
def beginMember (done : List (Option String × Tree)) (stack : List Frame) : Token → State
  | .text key => .colon done (some key) stack
  | .unpaired => .colon done none stack
  | .closeTable =>
    if done.isEmpty then .after (.table [] true) stack
    else .failed (collapse (.table done.reverse false) stack)
  | _ => .failed (collapse (.table done.reverse false) stack)

/-- The state after a token that follows a complete value. -/
def resume (value : Tree) : List Frame → Token → State
  | .items done :: stack, .comma => .value (.items (value :: done) :: stack)
  | .items done :: stack, .closeSequence => .after (.sequence (value :: done).reverse true) stack
  | .members done key :: stack, .comma => .key ((key, value) :: done) stack
  | .members done key :: stack, .closeTable =>
    .after (.table ((key, value) :: done).reverse true) stack
  | stack, _ => .failed (collapse value stack)

/-- The state after one more token. -/
def step : State → Token → State
  | .value stack, token => begin stack token
  | .opened stack, .closeSequence => .after (.sequence [] true) stack
  | .opened stack, token => begin (.items [] :: stack) token
  | .key done stack, token => beginMember done stack token
  | .colon done key stack, .colon => .value (.members done key :: stack)
  | .colon done key stack, _ => .failed (collapse .broken (.members done key :: stack))
  | .after value stack, token => resume value stack token
  | .failed tree, _ => .failed tree

/-- A text that has been read to its end or its first fault. -/
structure Source where
  tree : Tree
  /-- The text is one value and nothing else. -/
  complete : Bool

/-- What has been read when the text ends in a state. -/
def State.finish : State → Source
  | .value stack => ⟨collapse .broken stack, false⟩
  | .opened stack => ⟨collapse (.sequence [] false) stack, false⟩
  | .key done stack => ⟨collapse (.table done.reverse false) stack, false⟩
  | .colon done name stack => ⟨collapse .broken (.members done name :: stack), false⟩
  | .after tree [] => ⟨tree, true⟩
  | .after tree stack => ⟨collapse tree stack, false⟩
  | .failed tree => ⟨tree, false⟩

/-- The tree of a list of tokens. -/
def Source.ofTokens (ts : List Token) : Source := (ts.foldl step (.value [])).finish

/-- The tree of a text. -/
def Source.ofText (s : String) : Source := .ofTokens (tokens s.toList)

end Immutability.Json
