import Immutability.SkipPattern
import Mathlib.Data.String.Basic

/-! What a pattern for names says.

    The test compares the length in bytes, the beginning and the ending of a name. Together the three
    say that the beginning and the ending of the pattern stand in the name with some text between them
    (`Matches`): what is too long to fit side by side would have to share characters. -/

namespace Immutability

/-- What a pattern says of a name. Without a star it is the name; one star alone and two stars alone say
    nothing; otherwise the first star stands for any text, and other stars for themselves. -/
inductive Matches (pattern name : String) : Prop
  | exactly (hp : '*' ∉ pattern.toList) (hn : pattern = name)
  | always (hp : pattern = "*" ∨ pattern = "**")
  | around {head middle tail : String} (hp : pattern = head ++ "*" ++ tail)
    (hh : '*' ∉ head.toList) (hn : name = head ++ middle ++ tail)

/-! ### The first star -/

theorem splitStar_eq_none_iff {cs : List Char} : splitStar cs = none ↔ '*' ∉ cs := by
  induction cs with
  | nil => simp [splitStar]
  | cons c cs ih =>
    rw [splitStar]
    split
    · rename_i hc
      simp [hc]
    · rename_i hc
      simp [ih, Ne.symm hc]

/-- A pattern is split at its first star. -/
theorem splitStar_append {head : List Char} (hh : '*' ∉ head) (tail : List Char) :
    splitStar (head ++ '*' :: tail) = some (head, tail) := by
  induction head with
  | nil => rfl
  | cons c head ih =>
    have hc : c ≠ '*' := Ne.symm (List.ne_of_not_mem_cons hh)
    rw [List.cons_append, splitStar, if_neg hc, ih (List.not_mem_of_not_mem_cons hh)]
    rfl

theorem eq_append_of_splitStar {cs head tail : List Char} (h : splitStar cs = some (head, tail)) :
    '*' ∉ head ∧ cs = head ++ '*' :: tail := by
  induction cs generalizing head with
  | nil => cases h
  | cons c cs ih =>
    rw [splitStar] at h
    split at h
    · rename_i hc
      cases h
      exact ⟨List.not_mem_nil, by rw [hc, List.nil_append]⟩
    · rename_i hc
      obtain ⟨⟨front, rest⟩, hs, he⟩ := Option.map_eq_some_iff.1 h
      cases he
      obtain ⟨hf, rfl⟩ := ih hs
      exact ⟨List.not_mem_cons_of_ne_of_not_mem (Ne.symm hc) hf, rfl⟩

/-! ### Lengths -/

theorem byteLength_eq_utf8Len (cs : List Char) : byteLength cs = String.utf8Len cs := by
  induction cs with
  | nil => rfl
  | cons c cs ih => rw [byteLength, ih, String.utf8Len_cons, Nat.add_comm]

/-- The length in bytes is that of the text in memory. -/
theorem byteLength_toList (s : String) : byteLength s.toList = s.utf8ByteSize := by
  rw [byteLength_eq_utf8Len, String.utf8Len_toList]

theorem byteLength_append (cs ds : List Char) :
    byteLength (cs ++ ds) = byteLength cs + byteLength ds := by
  simp only [byteLength_eq_utf8Len, String.utf8Len_append]

theorem byteLength_eq_zero {cs : List Char} : byteLength cs = 0 ↔ cs = [] := by
  rw [byteLength_eq_utf8Len, String.utf8Len_eq_zero]

/-- Let sizes of texts add up, and only the empty text have none. A beginning and an ending that are
    together no larger than the text stand side by side in it. -/
theorem size_add_le_iff {size : List Char → Nat}
    (hadd : ∀ cs ds, size (cs ++ ds) = size cs + size ds) (hzero : ∀ cs, size cs = 0 ↔ cs = [])
    {head tail cs : List Char} (hh : head <+: cs) (ht : tail <:+ cs) :
    size head + size tail ≤ size cs ↔ ∃ middle, cs = head ++ middle ++ tail := by
  obtain ⟨rest, rfl⟩ := hh
  rw [hadd, Nat.add_le_add_iff_left]
  constructor
  · intro hl
    -- the ending and what follows the beginning are both endings of the text
    rcases List.suffix_or_suffix_of_suffix ht (List.suffix_append head rest) with hs | hs
    · obtain ⟨middle, rfl⟩ := hs
      exact ⟨middle, (List.append_assoc ..).symm⟩
    · obtain ⟨front, rfl⟩ := hs
      rw [hadd] at hl
      have hf : front = [] := (hzero front).1 (by omega)
      exact ⟨[], by rw [hf, List.append_nil, List.nil_append]⟩
  · rintro ⟨middle, he⟩
    rw [List.append_assoc, List.append_cancel_left_eq] at he
    rw [he, hadd]
    exact Nat.le_add_left _ _

theorem byteLength_add_le_iff {head tail cs : List Char} (hh : head <+: cs) (ht : tail <:+ cs) :
    byteLength head + byteLength tail ≤ byteLength cs ↔ ∃ middle, cs = head ++ middle ++ tail :=
  size_add_le_iff byteLength_append (fun _ => byteLength_eq_zero) hh ht

theorem length_add_le_iff {head tail cs : List Char} (hh : head <+: cs) (ht : tail <:+ cs) :
    head.length + tail.length ≤ cs.length ↔ ∃ middle, cs = head ++ middle ++ tail :=
  size_add_le_iff (fun _ _ => List.length_append) (fun _ => List.length_eq_zero_iff) hh ht

theorem eq_append_append_iff {name head tail : String} :
    (∃ middle, name = head ++ middle ++ tail) ↔
      ∃ middle, name.toList = head.toList ++ middle ++ tail.toList := by
  constructor
  · rintro ⟨middle, rfl⟩
    exact ⟨middle.toList, by rw [String.toList_append, String.toList_append]⟩
  · rintro ⟨middle, he⟩
    refine ⟨.ofList middle, ?_⟩
    rw [← String.toList_inj, String.toList_append, String.toList_append, String.toList_ofList, he]

/-! ### Patterns -/

/-- A pattern has no star, or it has a first one. -/
theorem notMem_or_eq_append (pattern : String) : '*' ∉ pattern.toList ∨
    ∃ head tail : String, pattern = head ++ "*" ++ tail ∧ '*' ∉ head.toList := by
  cases hs : splitStar pattern.toList with
  | none => exact Or.inl (splitStar_eq_none_iff.1 hs)
  | some parts =>
    obtain ⟨hh, hp⟩ := eq_append_of_splitStar hs
    refine Or.inr ⟨.ofList parts.1, .ofList parts.2, ?_, by rwa [String.toList_ofList]⟩
    rw [← String.toList_inj, hp]
    simp

section

variable {pattern name : String} (hall : ¬ (pattern = "*" ∨ pattern = "**"))

include hall

theorem skipMatches_of_notMem (hp : '*' ∉ pattern.toList) :
    skipMatches pattern name = true ↔ pattern = name := by
  rw [skipMatches, if_neg (by simpa using hall), splitStar_eq_none_iff.2 hp, decide_eq_true_iff]

/-- A pattern with a star matches the names that have what is before the star, any text, and what is
    after it. -/
theorem skipMatches_of_star {head tail : String} (hp : pattern = head ++ "*" ++ tail)
    (hh : '*' ∉ head.toList) :
    skipMatches pattern name = true ↔ ∃ middle, name = head ++ middle ++ tail := by
  have hs : splitStar pattern.toList = some (head.toList, tail.toList) := by
    rw [hp, String.toList_append, String.toList_append, List.append_assoc]
    exact splitStar_append hh tail.toList
  rw [skipMatches, if_neg (by simpa using hall), hs, eq_append_append_iff]
  simp only [Bool.and_eq_true, decide_eq_true_eq, List.isPrefixOf_iff_prefix,
    List.isSuffixOf_iff_suffix]
  constructor
  · rintro ⟨⟨hl, hb⟩, ht⟩
    exact (byteLength_add_le_iff hb ht).1 hl
  · rintro ⟨middle, he⟩
    have hb : head.toList <+: name.toList := ⟨middle ++ tail.toList, by rw [he, List.append_assoc]⟩
    have ht : tail.toList <:+ name.toList := ⟨head.toList ++ middle, he.symm⟩
    exact ⟨⟨(byteLength_add_le_iff hb ht).2 ⟨middle, he⟩, hb⟩, ht⟩

end

/-- A pattern matches the names of which it is true. -/
theorem skipMatches_iff {pattern name : String} :
    skipMatches pattern name = true ↔ Matches pattern name := by
  by_cases hall : pattern = "*" ∨ pattern = "**"
  · have hs : skipMatches pattern name = true := by simp [skipMatches, hall]
    exact ⟨fun _ => .always hall, fun _ => hs⟩
  constructor
  · intro h
    rcases notMem_or_eq_append pattern with hp | ⟨head, tail, hp, hh⟩
    · exact .exactly hp ((skipMatches_of_notMem hall hp).1 h)
    · obtain ⟨middle, hn⟩ := (skipMatches_of_star hall hp hh).1 h
      exact .around hp hh hn
  · rintro (⟨hp, hn⟩ | hp | ⟨hp, hh, hn⟩)
    · exact (skipMatches_of_notMem hall hp).2 hn
    · exact absurd hp hall
    · exact (skipMatches_of_star hall hp hh).2 ⟨_, hn⟩

/-- A name is skipped exactly if one of the patterns is true of it. The lengths that are compared are
    those in bytes. For a beginning and an ending of a name it does not matter whether bytes or
    characters are counted: they fit exactly if they stand side by side in the name. -/
theorem skipped_iff (patterns : List String) (name : String) :
    (skipped patterns name = true ↔ ∃ pattern ∈ patterns, Matches pattern name) ∧
    (∀ s : String, byteLength s.toList = s.utf8ByteSize) ∧
    ∀ head tail : String, head.toList <+: name.toList → tail.toList <:+ name.toList →
      (byteLength head.toList + byteLength tail.toList ≤ byteLength name.toList ↔
        head.length + tail.length ≤ name.length) ∧
      (byteLength head.toList + byteLength tail.toList ≤ byteLength name.toList ↔
        ∃ middle, name = head ++ middle ++ tail) := by
  refine ⟨?_, byteLength_toList, ?_⟩
  · simp only [skipped, List.any_eq_true, skipMatches_iff]
  · intro head tail hh ht
    rw [byteLength_add_le_iff hh ht, eq_append_append_iff, ← length_add_le_iff hh ht]
    exact ⟨Iff.rfl, Iff.rfl⟩

-- the beginning and the ending of the pattern would share a character of two bytes
example : skipped ["aé*éa"] "aéa" = false := by decide

end Immutability
