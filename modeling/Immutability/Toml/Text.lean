import Immutability.Text.Digits

/-! Texts of TOML and their four notations.

    A text stands between double quotes, with escapes, or between single quotes, exactly as it is. The
    long form of either is opened and closed by three quotes, may run over several lines, and drops a
    newline right after its opening quotes. -/

namespace Immutability.Toml

/-- The single quote. -/
def quote : Char := '\x27'

/-- The space and the tab. -/
def isBlank (c : Char) : Bool := c = ' ' || c = '\t'

/-- The character may stand in a text or a comment as it is: no control but the tab. -/
def isPlain (c : Char) : Bool := c = '\t' || (0x20 ≤ c.toNat && c.toNat ≠ 0x7F)

/-! ### Reading -/

open Text (hexValue? ofDigits)

/-- The character whose code point digits in base sixteen spell. -/
def charOfHex? (ds : List Char) : Option Char :=
  match ds.mapM hexValue? with
  | some vs =>
    let code := ofDigits 16 vs
    if code.isValidChar then some (Char.ofNat code) else none
  | none => none

/-- The character that a letter escapes. -/
def escaped? : Char → Option Char
  | 'b' => some '\x08'
  | 't' => some '\t'
  | 'n' => some '\n'
  | 'f' => some '\x0c'
  | 'r' => some '\r'
  | '"' => some '"'
  | '\\' => some '\\'
  | _ => none

/-- Puts a character in front of a text that has been read. -/
def prepend (c : Option Char) (read : Option (List Char × List Char)) :
    Option (List Char × List Char) :=
  match c, read with
  | some c, some (cs, rest) => some (c :: cs, rest)
  | _, _ => none

/-- A text between double quotes, after its opening quote, and what follows it. -/
def scanBasic : List Char → Option (List Char × List Char)
  | [] => none
  | '"' :: rest => some ([], rest)
  | '\\' :: 'u' :: a :: b :: c :: d :: rest => prepend (charOfHex? [a, b, c, d]) (scanBasic rest)
  | '\\' :: 'U' :: a :: b :: c :: d :: e :: f :: g :: h :: rest =>
    prepend (charOfHex? [a, b, c, d, e, f, g, h]) (scanBasic rest)
  | '\\' :: letter :: rest => prepend (escaped? letter) (scanBasic rest)
  | c :: rest => if isPlain c ∧ c ≠ '\\' then prepend (some c) (scanBasic rest) else none

/-- A text between single quotes, after its opening quote, and what follows it. -/
def scanLiteral : List Char → Option (List Char × List Char)
  | [] => none
  | '\x27' :: rest => some ([], rest)
  | c :: rest => if isPlain c then prepend (some c) (scanLiteral rest) else none

/-- Nothing but white space stands before the end of the line. -/
def endsLine : List Char → Bool
  | '\n' :: _ => true
  | '\r' :: '\n' :: _ => true
  | c :: rest => isBlank c && endsLine rest
  | [] => false

/-- A long text between double quotes, after its opening, and what follows it. While `dropping`, white
    space and newlines are passed over, as they are after a backslash at the end of a line. Of up to
    five quotes at the end the last three close the text. -/
def scanLongBasic (dropping : Bool) : List Char → Option (List Char × List Char)
  | [] => none
  | '\n' :: rest =>
    if dropping then scanLongBasic true rest else prepend (some '\n') (scanLongBasic false rest)
  | '\r' :: '\n' :: rest =>
    if dropping then scanLongBasic true rest else prepend (some '\n') (scanLongBasic false rest)
  | '"' :: '"' :: '"' :: '"' :: '"' :: '"' :: _ => none
  | '"' :: '"' :: '"' :: '"' :: '"' :: rest => some (['"', '"'], rest)
  | '"' :: '"' :: '"' :: '"' :: rest => some (['"'], rest)
  | '"' :: '"' :: '"' :: rest => some ([], rest)
  | '\\' :: 'u' :: a :: b :: c :: d :: rest =>
    prepend (charOfHex? [a, b, c, d]) (scanLongBasic false rest)
  | '\\' :: 'U' :: a :: b :: c :: d :: e :: f :: g :: h :: rest =>
    prepend (charOfHex? [a, b, c, d, e, f, g, h]) (scanLongBasic false rest)
  | '\\' :: letter :: rest =>
    if endsLine (letter :: rest) then scanLongBasic true (letter :: rest)
    else prepend (escaped? letter) (scanLongBasic false rest)
  | c :: rest =>
    if dropping ∧ isBlank c then scanLongBasic true rest
    else if isPlain c ∧ c ≠ '\\' then prepend (some c) (scanLongBasic false rest)
    else none

/-- A long text between single quotes, after its opening, and what follows it. -/
def scanLongLiteral : List Char → Option (List Char × List Char)
  | [] => none
  | '\n' :: rest => prepend (some '\n') (scanLongLiteral rest)
  | '\r' :: '\n' :: rest => prepend (some '\n') (scanLongLiteral rest)
  | '\x27' :: '\x27' :: '\x27' :: '\x27' :: '\x27' :: '\x27' :: _ => none
  | '\x27' :: '\x27' :: '\x27' :: '\x27' :: '\x27' :: rest => some ([quote, quote], rest)
  | '\x27' :: '\x27' :: '\x27' :: '\x27' :: rest => some ([quote], rest)
  | '\x27' :: '\x27' :: '\x27' :: rest => some ([], rest)
  | c :: rest => if isPlain c then prepend (some c) (scanLongLiteral rest) else none

/-- Drops a newline right after the opening quotes. -/
def dropNewline : List Char → List Char
  | '\n' :: rest => rest
  | '\r' :: '\n' :: rest => rest
  | s => s

/-- The text at the start of the input, in any notation, and what follows it. -/
def scanText : List Char → Option (List Char × List Char)
  | '"' :: '"' :: '"' :: rest => scanLongBasic false (dropNewline rest)
  | '"' :: rest => scanBasic rest
  | '\x27' :: '\x27' :: '\x27' :: rest => scanLongLiteral (dropNewline rest)
  | '\x27' :: rest => scanLiteral rest
  | _ => none

/-! ### Writing -/

/-- The character can only be written as an escape, where a newline may stand as it is. -/
def needsEscape (c : Char) : Bool := !isPlain c && c ≠ '\n'

/-- The length of the longest run of a character. -/
def longestRun (c : Char) (s : List Char) : Nat :=
  (s.foldl (fun (best, run) d => if d = c then (max best (run + 1), run + 1) else (best, 0))
    (0, 0)).1

/-- A control character as an escape by its code point. -/
def escapeCode (c : Char) : List Char :=
  let digit (n : Nat) : Char := (Nat.digitChar n).toUpper
  ['\\', 'u', '0', '0', digit (c.toNat / 16), digit (c.toNat % 16)]

/-- The characters of a text inside double quotes, `run` of which are double quotes that precede it.
    At most `limit` double quotes in a row stand as they are, and a newline does if the notation is
    long. -/
def basicBody (long : Bool) (limit : Nat) : (run : Nat) → List Char → List Char
  | _, [] => []
  | run, c :: cs =>
    if c = '"' then
      if run < limit then '"' :: basicBody long limit (run + 1) cs
      else '\\' :: '"' :: basicBody long limit 0 cs
    else
      (match c with
        | '\x08' => ['\\', 'b']
        | '\t' => ['\\', 't']
        | '\n' => if long then ['\n'] else ['\\', 'n']
        | '\x0c' => ['\\', 'f']
        | '\r' => ['\\', 'r']
        | '\\' => ['\\', '\\']
        | c => if isPlain c then [c] else escapeCode c)
        ++ basicBody long limit 0 cs

/-- A text between double quotes. -/
def basic (s : List Char) : List Char := '"' :: (basicBody false 0 0 s ++ ['"'])

/-- A text between single quotes. -/
def literal (s : List Char) : List Char := quote :: (s ++ [quote])

/-- A newline that is written only to be dropped. -/
def opening (s : List Char) : List Char := if '\n' ∈ s then ['\n'] else []

/-- A long text between double quotes. -/
def longBasic (s : List Char) : List Char :=
  ['"', '"', '"'] ++ opening s ++ basicBody true 2 0 s ++ ['"', '"', '"']

/-- A long text between single quotes. -/
def longLiteral (s : List Char) : List Char :=
  [quote, quote, quote] ++ opening s ++ s ++ [quote, quote, quote]

/-- A text in the plainest notation that needs no escapes, or with escapes if all need some. -/
def writeText (s : List Char) : List Char :=
  let lines := decide ('\n' ∈ s)
  let codes := s.any needsEscape
  let doubles := longestRun '"' s
  let singles := longestRun quote s
  let clean := !codes && !decide ('\\' ∈ s)
  if clean && doubles = 0 && !lines then basic s
  else if !codes && singles = 0 && !lines then literal s
  else if clean && doubles ≤ 2 then longBasic s
  else if !codes && singles ≤ 2 then longLiteral s
  else if lines then longBasic s
  else basic s

/-- A character of a key that needs no quotes. -/
def isBareKeyChar (c : Char) : Bool :=
  c.isAlphanum || c = '-' || c = '_'

/-- A key, without quotes if it can do without. A key stands on one line. -/
def writeKey (s : List Char) : List Char :=
  let codes := s.any fun c => !isPlain c
  if !s.isEmpty && s.all isBareKeyChar then s
  else if !codes && !decide ('\\' ∈ s) && longestRun '"' s = 0 then basic s
  else if !codes && longestRun quote s = 0 then literal s
  else basic s

end Immutability.Toml
