import Immutability.Toml.Text

/-! Every text is read back from the notation in which it is written.

    Inside double quotes each character has a spelling of its own and is read from it, whatever follows.
    Only the quotes of the long notations take more: up to two of them stand as they are and belong to
    the text, and so the quotes in front of the place where a long text is read on are carried along. -/

namespace Immutability.Toml

variable {c letter : Char} {rest s text : List Char} {long : Bool} {limit run : Nat}

/-! ### Spellings -/

/-- A character of one byte is read from the digits of its code. -/
theorem charOfHex?_escapeCode (h : c.toNat < 128) :
    ∃ a b, escapeCode c = ['\\', 'u', '0', '0', a, b] ∧ charOfHex? ['0', '0', a, b] = some c := by
  refine ⟨_, _, rfl, ?_⟩
  have hall : ∀ n < 128, charOfHex? ['0', '0', (Nat.digitChar (n / 16)).toUpper,
    (Nat.digitChar (n % 16)).toUpper] = some (Char.ofNat n) := by decide
  simpa using hall c.toNat h

theorem ne_of_escaped {d : Char} (h : escaped? letter = some c) (hd : escaped? d = none) :
    letter ≠ d := by
  rintro rfl
  cases hd.symm.trans h

theorem ne_of_isPlain {d : Char} (h : isPlain c = true) (hd : isPlain d = false) : c ≠ d := by
  rintro rfl
  cases hd.symm.trans h

/-- The ways in which a character stands between double quotes. -/
inductive Spells (long : Bool) (c : Char) : List Char → Prop
  | letter {letter : Char} (h : escaped? letter = some c) : Spells long c ['\\', letter]
  | code (h : c.toNat < 128) : Spells long c (escapeCode c)
  | plain (hp : isPlain c = true) (hq : c ≠ '"') (hb : c ≠ '\\') : Spells long c [c]
  | newline (hl : long = true) (hc : c = '\n') : Spells long c ['\n']

/-- A quote stands as it is while the run of quotes may grow. -/
theorem basicBody_quote (h : run < limit) (s : List Char) :
    basicBody long limit run ('"' :: s) = '"' :: basicBody long limit (run + 1) s := by
  rw [basicBody.eq_def]
  exact (if_pos rfl).trans (if_pos h)

/-- Any other character, and a quote too many, has a spelling. -/
theorem exists_spells (long : Bool) (h : c = '"' → limit ≤ run) (s : List Char) :
    ∃ text, Spells long c text ∧
      basicBody long limit run (c :: s) = text ++ basicBody long limit 0 s := by
  rw [basicBody.eq_def]
  dsimp only
  by_cases hq : c = '"'
  · rw [if_pos hq, if_neg (Nat.not_lt.2 (h hq)), hq]
    exact ⟨['\\', '"'], .letter rfl, rfl⟩
  rw [if_neg hq]
  refine ⟨_, ?_, rfl⟩
  split
  · exact .letter rfl
  · exact .letter rfl
  · cases long
    · exact .letter rfl
    · exact .newline rfl rfl
  · exact .letter rfl
  · exact .letter rfl
  · exact .letter rfl
  · rename_i hb
    split
    · rename_i hp
      exact .plain hp hq hb
    · rename_i hp
      refine .code ?_
      simp only [isPlain, Bool.or_eq_true, decide_eq_true_iff, Bool.and_eq_true, ne_eq] at hp
      omega

/-- No spelling starts with a double quote or a carriage return, and only a newline has one that starts
    with a newline. -/
theorem Spells.exists_cons (h : Spells long c text) :
    ∃ d more, text = d :: more ∧ d ≠ '"' ∧ d ≠ '\r' ∧ (d = '\n' → c = '\n') := by
  cases h with
  | letter h => exact ⟨'\\', _, rfl, by decide, by decide, nofun⟩
  | code h => exact ⟨'\\', _, rfl, by decide, by decide, nofun⟩
  | plain hp hq hb => exact ⟨_, _, rfl, hq, ne_of_isPlain hp (by decide), id⟩
  | newline hl hc => exact ⟨_, _, rfl, by decide, by decide, fun _ => hc⟩

theorem Spells.scanBasic (h : Spells false c text) (rest : List Char) :
    scanBasic (text ++ rest) = prepend (some c) (scanBasic rest) := by
  cases h with
  | @letter letter h =>
    have hu : letter ≠ 'u' := ne_of_escaped h rfl
    have hU : letter ≠ 'U' := ne_of_escaped h rfl
    rw [List.cons_append, List.singleton_append, Toml.scanBasic, h]
    all_goals simp_all
  | code h =>
    obtain ⟨a, b, he, hc⟩ := charOfHex?_escapeCode h
    rw [he, ← hc]
    rfl
  | plain hp hq hb =>
    rw [List.singleton_append, Toml.scanBasic, if_pos ⟨hp, hb⟩]
    all_goals simp_all
  | newline hl => cases hl

theorem endsLine_of_escaped (h : escaped? letter = some c) : endsLine (letter :: rest) = false := by
  have hn : letter ≠ '\n' := ne_of_escaped h rfl
  have hr : letter ≠ '\r' := ne_of_escaped h rfl
  have hb : isBlank letter = false := by
    have hs : letter ≠ ' ' := ne_of_escaped h rfl
    have ht : letter ≠ '\t' := ne_of_escaped h rfl
    simp [isBlank, hs, ht]
  rw [endsLine, hb, Bool.false_and]
  all_goals simp_all

theorem Spells.scanLongBasic (h : Spells true c text) (rest : List Char) :
    scanLongBasic false (text ++ rest) = prepend (some c) (scanLongBasic false rest) := by
  cases h with
  | @letter letter h =>
    have hu : letter ≠ 'u' := ne_of_escaped h rfl
    have hU : letter ≠ 'U' := ne_of_escaped h rfl
    have he : endsLine (letter :: rest) = false := endsLine_of_escaped h
    rw [List.cons_append, List.singleton_append, Toml.scanLongBasic, if_neg (by simp [he]), h]
    all_goals simp_all
  | code h =>
    obtain ⟨a, b, he, hc⟩ := charOfHex?_escapeCode h
    rw [he, ← hc]
    rfl
  | plain hp hq hb =>
    have hn : c ≠ '\n' := ne_of_isPlain hp (by decide)
    have hr : c ≠ '\r' := ne_of_isPlain hp (by decide)
    rw [List.singleton_append, Toml.scanLongBasic]
    all_goals simp_all
  | newline hl hc =>
    rw [hc]
    rfl

/-! ### Short notations -/

theorem scanBasic_basicBody (run : Nat) (s rest : List Char) :
    scanBasic (basicBody false 0 run s ++ '"' :: rest) = some (s, rest) := by
  induction s generalizing run with
  | nil => rfl
  | cons c s ih =>
    obtain ⟨text, ht, hb⟩ := exists_spells false (fun _ => Nat.zero_le run) s
    rw [hb, List.append_assoc, ht.scanBasic, ih]
    rfl

theorem scanLiteral_append (hp : ∀ c ∈ s, isPlain c = true) (hq : quote ∉ s) (rest : List Char) :
    scanLiteral (s ++ quote :: rest) = some (s, rest) := by
  induction s with
  | nil => rfl
  | cons c s ih =>
    obtain ⟨hc, hp⟩ := List.forall_mem_cons.1 hp
    obtain ⟨hne, hq⟩ := not_or.1 (mt List.mem_cons.2 hq)
    rw [List.cons_append, scanLiteral, if_pos hc, ih hp hq]
    · rfl
    · exact Ne.symm hne

/-! ### Runs -/

/-- After a run of a character no run of it gets too long. -/
def RunsFit (c : Char) (limit : Nat) : (run : Nat) → List Char → Prop
  | _, [] => True
  | run, d :: ds =>
    if d = c then run + 1 ≤ limit ∧ RunsFit c limit (run + 1) ds else RunsFit c limit 0 ds

theorem longestRun_le_iff : longestRun c s ≤ limit ↔ RunsFit c limit 0 s := by
  suffices h : ∀ p : Nat × Nat, (s.foldl (fun p d =>
      if d = c then (max p.1 (p.2 + 1), p.2 + 1) else (p.1, 0)) p).1 ≤ limit ↔
      p.1 ≤ limit ∧ RunsFit c limit p.2 s from (h (0, 0)).trans (and_iff_right (Nat.zero_le limit))
  induction s with
  | nil => simp [RunsFit]
  | cons d s ih =>
    intro p
    rw [List.foldl_cons, RunsFit, ih]
    by_cases hd : d = c
    · simp only [if_pos hd, Nat.max_le, and_assoc]
    · simp only [if_neg hd]

theorem RunsFit.notMem {run : Nat} (h : RunsFit c 0 run s) : c ∉ s := by
  induction s generalizing run with
  | nil => exact List.not_mem_nil
  | cons d s ih =>
    rw [RunsFit] at h
    split at h
    · exact absurd h.1 (Nat.not_succ_le_zero run)
    · rename_i hd
      exact List.not_mem_cons_of_ne_of_not_mem (Ne.symm hd) (ih h)

/-! ### Long notations -/

/-- Reading a long text takes a quote into the text, unless two more follow. -/
def TakesQuote (q : Char) (scan : List Char → Option (List Char × List Char)) : Prop :=
  ∀ rest, (∀ more, rest ≠ q :: q :: more) → scan (q :: rest) = prepend (some q) (scan rest)

theorem takesQuote_scanLongBasic : TakesQuote '"' (scanLongBasic false) := by
  intro rest h
  rw [scanLongBasic]
  all_goals simp_all [isPlain]

theorem takesQuote_scanLongLiteral : TakesQuote quote scanLongLiteral := by
  intro rest h
  rw [quote, scanLongLiteral]
  all_goals simp_all [isPlain, quote]

/-- Up to two quotes in front of something else are taken into the text. -/
theorem TakesQuote.replicate {q : Char} {scan : List Char → Option (List Char × List Char)}
    (hs : TakesQuote q scan) (hr : run ≤ 2) (hc : c ≠ q) (h : scan (c :: rest) = some (s, text)) :
    scan (List.replicate run q ++ c :: rest) = some (List.replicate run q ++ s, text) := by
  have hone : scan (q :: c :: rest) = some (q :: s, text) := by
    rw [hs _ (by simp [hc]), h]
    rfl
  have htwo : scan (q :: q :: c :: rest) = some (q :: q :: s, text) := by
    rw [hs _ (by simp [hc]), hone]
    rfl
  match run, hr with
  | 0, _ => exact h
  | 1, _ => exact hone
  | 2, _ => exact htwo

/-- Of the quotes at the end of a long text the last three close it. -/
theorem scanLongBasic_close (hr : run ≤ 2) (hrest : rest.head? ≠ some '"') :
    scanLongBasic false (List.replicate run '"' ++ '"' :: '"' :: '"' :: rest) =
      some (List.replicate run '"', rest) := by
  have h : ∀ more, rest ≠ '"' :: more := by
    rintro more rfl
    exact hrest rfl
  match run, hr with
  | 0, _ =>
    rw [List.replicate_zero, List.nil_append, scanLongBasic]
    all_goals simp_all
  | 1, _ =>
    rw [List.replicate_one, List.singleton_append, scanLongBasic]
    all_goals simp_all
  | 2, _ =>
    rw [List.replicate_succ, List.replicate_one, List.cons_append, List.singleton_append,
      scanLongBasic]
    all_goals simp_all

theorem scanLongBasic_basicBody (hr : run ≤ 2) (hrest : rest.head? ≠ some '"') :
    scanLongBasic false
      (List.replicate run '"' ++ (basicBody true 2 run s ++ '"' :: '"' :: '"' :: rest)) =
      some (List.replicate run '"' ++ s, rest) := by
  induction s generalizing run with
  | nil =>
    rw [List.append_nil]
    exact scanLongBasic_close hr hrest
  | cons c s ih =>
    by_cases hq : c = '"' ∧ run < 2
    · obtain ⟨rfl, hlt⟩ := hq
      have h := ih (show run + 1 ≤ 2 from hlt)
      rw [basicBody_quote hlt]
      simpa [List.replicate_succ'] using h
    · have hfull : c = '"' → 2 ≤ run := fun hc => Nat.not_lt.1 fun hlt => hq ⟨hc, hlt⟩
      obtain ⟨text, ht, hb⟩ := exists_spells true hfull s
      have h := ih (Nat.zero_le 2)
      have hs := ht.scanLongBasic (basicBody true 2 0 s ++ '"' :: '"' :: '"' :: rest)
      obtain ⟨d, more, rfl, hd, -⟩ := ht.exists_cons
      rw [hb, List.append_assoc]
      refine takesQuote_scanLongBasic.replicate hr hd (hs.trans ?_)
      rw [List.replicate_zero, List.nil_append, List.nil_append] at h
      rw [h]
      rfl

theorem scanLongLiteral_close (hr : run ≤ 2) (hrest : rest.head? ≠ some quote) :
    scanLongLiteral (List.replicate run quote ++ quote :: quote :: quote :: rest) =
      some (List.replicate run quote, rest) := by
  have h : ∀ more, rest ≠ quote :: more := by
    rintro more rfl
    exact hrest rfl
  rw [quote] at h ⊢
  match run, hr with
  | 0, _ =>
    rw [List.replicate_zero, List.nil_append, scanLongLiteral]
    all_goals simp_all
  | 1, _ =>
    rw [List.replicate_one, List.singleton_append, scanLongLiteral]
    all_goals simp_all [quote]
  | 2, _ =>
    rw [List.replicate_succ, List.replicate_one, List.cons_append, List.singleton_append,
      scanLongLiteral]
    all_goals simp_all [quote]

/-- Characters that need no escape stand as they are. -/
theorem scanLongLiteral_cons (hc : needsEscape c = false) (hq : c ≠ quote) (rest : List Char) :
    scanLongLiteral (c :: rest) = prepend (some c) (scanLongLiteral rest) := by
  by_cases hn : c = '\n'
  · rw [hn]
    rfl
  · have hp : isPlain c = true := by simpa [needsEscape, hn] using hc
    have hr : c ≠ '\r' := ne_of_isPlain hp (by decide)
    rw [quote] at hq
    rw [scanLongLiteral, if_pos hp]
    all_goals simp_all

theorem scanLongLiteral_append (hr : run ≤ 2) (hf : RunsFit quote 2 run s)
    (hs : ∀ c ∈ s, needsEscape c = false) (hrest : rest.head? ≠ some quote) :
    scanLongLiteral (List.replicate run quote ++ (s ++ quote :: quote :: quote :: rest)) =
      some (List.replicate run quote ++ s, rest) := by
  induction s generalizing run with
  | nil =>
    rw [List.append_nil]
    exact scanLongLiteral_close hr hrest
  | cons c s ih =>
    obtain ⟨hc, ht⟩ := List.forall_mem_cons.1 hs
    rw [RunsFit] at hf
    by_cases hq : c = quote
    · subst hq
      rw [if_pos rfl] at hf
      simpa [List.replicate_succ'] using ih hf.1 hf.2 ht
    · rw [if_neg hq] at hf
      refine takesQuote_scanLongLiteral.replicate hr hq ?_
      have h := ih (Nat.zero_le 2) hf ht
      rw [List.replicate_zero, List.nil_append, List.nil_append] at h
      rw [List.append_eq, scanLongLiteral_cons hc hq, h]
      rfl

/-! ### Texts -/

theorem dropNewline_opening (h : '\n' ∉ s → ∀ more, rest ≠ '\n' :: more ∧ rest ≠ '\r' :: more) :
    dropNewline (opening s ++ rest) = rest := by
  by_cases hn : '\n' ∈ s
  · rw [opening, if_pos hn]
    rfl
  · rw [opening, if_neg hn, List.nil_append, dropNewline]
    · rintro more rfl
      exact (h hn more).1 rfl
    · rintro more rfl
      exact (h hn _).2 rfl

/-- Between double quotes no text starts with a carriage return, and only one that has a newline starts
    with a newline. -/
theorem basicBody_append_eq_cons {d : Char} {more : List Char}
    (h : basicBody long limit run s ++ '"' :: rest = d :: more) : d ≠ '\r' ∧ (d = '\n' → '\n' ∈ s) := by
  cases s with
  | nil =>
    cases h
    exact ⟨by decide, nofun⟩
  | cons c s =>
    by_cases hq : c = '"' ∧ run < limit
    · obtain ⟨rfl, hlt⟩ := hq
      rw [basicBody_quote hlt] at h
      cases h
      exact ⟨by decide, nofun⟩
    · obtain ⟨text, ht, hb⟩ :=
        exists_spells long (fun hc => Nat.not_lt.1 fun hlt => hq ⟨hc, hlt⟩) s
      obtain ⟨d, more, rfl, -, hr, hn⟩ := ht.exists_cons
      rw [hb] at h
      cases h
      exact ⟨hr, fun hd => by rw [hn hd]; exact List.mem_cons_self⟩

theorem scanText_basic (s : List Char) (hrest : rest.head? ≠ some '"') :
    scanText (basic s ++ rest) = some (s, rest) := by
  have hscan := scanBasic_basicBody 0 s rest
  have hnext : ∀ more, basicBody false 0 0 s ++ '"' :: rest ≠ '"' :: '"' :: more := by
    cases s with
    | nil =>
      rintro more h
      exact hrest (by rw [(List.cons.inj h).2]; rfl)
    | cons c s =>
      obtain ⟨text, ht, hb⟩ := exists_spells (c := c) false (fun _ => Nat.zero_le 0) s
      obtain ⟨d, more, rfl, hd, -⟩ := ht.exists_cons
      rintro more h
      rw [hb] at h
      exact hd (List.cons.inj h).1
  have hb : basic s ++ rest = '"' :: (basicBody false 0 0 s ++ '"' :: rest) := by simp [basic]
  rw [hb, scanText, hscan]
  simpa using hnext

theorem scanText_literal (hs : ∀ c ∈ s, isPlain c = true) (hq : quote ∉ s)
    (hrest : rest.head? ≠ some quote) : scanText (literal s ++ rest) = some (s, rest) := by
  have hscan := scanLiteral_append hs hq rest
  have hnext : ∀ more, s ++ quote :: rest ≠ quote :: quote :: more := by
    cases s with
    | nil =>
      rintro more h
      exact hrest (by rw [(List.cons.inj h).2]; rfl)
    | cons c s =>
      rintro more h
      exact hq (by rw [(List.cons.inj h).1]; exact List.mem_cons_self)
  have hl : literal s ++ rest = quote :: (s ++ quote :: rest) := by simp [literal]
  rw [hl, quote, scanText]
  · exact hscan
  · simpa [quote] using hnext

theorem scanText_longBasic (s : List Char) (hrest : rest.head? ≠ some '"') :
    scanText (longBasic s ++ rest) = some (s, rest) := by
  have hscan := scanLongBasic_basicBody (s := s) (Nat.zero_le 2) hrest
  have hnext : '\n' ∉ s → ∀ more, basicBody true 2 0 s ++ '"' :: '"' :: '"' :: rest ≠ '\n' :: more ∧
      basicBody true 2 0 s ++ '"' :: '"' :: '"' :: rest ≠ '\r' :: more := fun hn more =>
    ⟨fun h => hn ((basicBody_append_eq_cons h).2 rfl), fun h => (basicBody_append_eq_cons h).1 rfl⟩
  have hl : longBasic s ++ rest = '"' :: '"' :: '"' :: (opening s ++
      (basicBody true 2 0 s ++ '"' :: '"' :: '"' :: rest)) := by simp [longBasic]
  rw [hl, scanText, dropNewline_opening hnext]
  exact hscan

theorem scanText_longLiteral (hf : RunsFit quote 2 0 s) (hs : ∀ c ∈ s, needsEscape c = false)
    (hrest : rest.head? ≠ some quote) : scanText (longLiteral s ++ rest) = some (s, rest) := by
  have hscan := scanLongLiteral_append (Nat.zero_le 2) hf hs hrest
  have hnext : '\n' ∉ s → ∀ more, s ++ quote :: quote :: quote :: rest ≠ '\n' :: more ∧
      s ++ quote :: quote :: quote :: rest ≠ '\r' :: more := by
    intro hn more
    cases s with
    | nil => simp [quote]
    | cons c s =>
      have hr : needsEscape '\r' = true := by decide
      constructor
      · rintro h
        exact hn ((List.cons.inj h).1 ▸ List.mem_cons_self)
      · rintro h
        have hc := hs c List.mem_cons_self
        rw [(List.cons.inj h).1, hr] at hc
        cases hc
  have hl : longLiteral s ++ rest = quote :: quote :: quote :: (opening s ++
      (s ++ quote :: quote :: quote :: rest)) := by simp [longLiteral]
  rw [hl, quote, scanText, ← quote, dropNewline_opening hnext]
  exact hscan

/-- A text is read back from any notation in which it is written. -/
theorem scanText_writeText (s : List Char) (hd : rest.head? ≠ some '"') (hq : rest.head? ≠ some quote) :
    scanText (writeText s ++ rest) = some (s, rest) := by
  unfold writeText
  dsimp only
  split
  · exact scanText_basic s hd
  split
  · rename_i h
    obtain ⟨⟨hc, hr⟩, hn⟩ : ((∀ c ∈ s, needsEscape c = false) ∧ longestRun quote s = 0) ∧ '\n' ∉ s := by
      simpa using h
    refine scanText_literal (fun c hm => ?_) (longestRun_le_iff.1 (Nat.le_of_eq hr)).notMem hq
    have hne : c ≠ '\n' := fun he => hn (he ▸ hm)
    simpa [needsEscape, hne] using hc c hm
  split
  · exact scanText_longBasic s hd
  split
  · rename_i h
    obtain ⟨hc, hr⟩ : (∀ c ∈ s, needsEscape c = false) ∧ longestRun quote s ≤ 2 := by simpa using h
    exact scanText_longLiteral (longestRun_le_iff.1 hr) hc hq
  split
  · exact scanText_longBasic s hd
  · exact scanText_basic s hd

end Immutability.Toml
