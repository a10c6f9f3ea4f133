/-! Patterns for the names of types that are not verified.

    A pattern without a star is a name. Otherwise its first star stands for any text, and what follows
    it is a literal ending, further stars included; a star alone and two stars alone match every
    name. -/

namespace Immutability

/-- The part of a pattern before its first star and the part after it, if it has a star. -/
def splitStar : List Char → Option (List Char × List Char)
  | [] => none
  | c :: cs =>
    if c = '*' then some ([], cs)
    else (splitStar cs).map fun (head, tail) => (c :: head, tail)

/-- The number of bytes of a text. -/
def byteLength : List Char → Nat
  | [] => 0
  | c :: cs => c.utf8Size + byteLength cs

/-- A pattern matches a name. The name has to hold the beginning and the ending side by side, so the
    two never share a character. -/
def skipMatches (pattern name : String) : Bool :=
  if pattern = "*" || pattern = "**" then true
  else
    match splitStar pattern.toList with
    | none => pattern = name
    | some (head, tail) =>
      let cs := name.toList
      decide (byteLength head + byteLength tail ≤ byteLength cs)
        && head.isPrefixOf cs && tail.isSuffixOf cs

/-- Some pattern of a list matches a name. -/
def skipped (patterns : List String) (name : String) : Bool :=
  patterns.any fun pattern => skipMatches pattern name

end Immutability
