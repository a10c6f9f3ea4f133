/-! Text for a terminal, with or without colours. -/

namespace Immutability

/-- A look of a text. -/
inductive Look where | bold | red | boldRed | green | boldGreen | yellow | boldYellow | cyan
  | brightBlue | boldBrightBlue
  deriving DecidableEq

/-- The codes that switch a terminal to a look. -/
def Look.codes : Look → String
  | bold => "1"
  | red => "31"
  | boldRed => "1;31"
  | green => "32"
  | boldGreen => "1;32"
  | yellow => "33"
  | boldYellow => "1;33"
  | cyan => "36"
  | brightBlue => "94"
  | boldBrightBlue => "1;94"

/-- What switches a terminal back to plain text. -/
def plainCode : String := "\x1b[0m"

/-- A text in which every switch back to plain is followed by `code`. -/
def resumed (code : List Char) : List Char → List Char
  | '\x1b' :: '[' :: '0' :: 'm' :: cs => '\x1b' :: '[' :: '0' :: 'm' :: (code ++ resumed code cs)
  | c :: cs => c :: resumed code cs
  | [] => []

/-- A text in a look, if the terminal shows colours. Where the text itself switches back to plain, the
    look is switched on again. -/
def styled (color : Bool) (look : Look) (s : String) : String :=
  if color then
    let code := "\x1b[" ++ look.codes ++ "m"
    code ++ String.ofList (resumed code.toList s.toList) ++ plainCode
  else s

/-- A run shows colours if its surroundings force them, or else if they do not forbid them and it
    prints to a terminal. The settings are environment variables, of which `0` means no. -/
def showsColor (force forbid allow : Option String) (terminal : Bool) : Bool :=
  match force with
  | some s => if s ≠ "0" then true else forbid.isNone && allow != some "0" && terminal
  | none => forbid.isNone && allow != some "0" && terminal

/-- A line across the page. -/
def ruler (color : Bool) : String := styled color .brightBlue (String.ofList (List.replicate 60 '='))

end Immutability
