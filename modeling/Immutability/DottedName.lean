/-! Qualified names, whose parts are separated by dots. -/

namespace Immutability

/-- The element is the one of the given path, or lies within it. A path ends at a dot, so `a.Pair` does
    not hold `a.PairBuilder`. -/
def isWithin (path element : String) : Bool :=
  decide (element = path) || (path.toList ++ ['.']).isPrefixOf element.toList

/-- The name is longer than the simple name and ends in it after a dot. -/
def endsInSimple (simple name : String) : Bool :=
  ('.' :: simple.toList).isSuffixOf name.toList

end Immutability
