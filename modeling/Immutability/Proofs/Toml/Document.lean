import Immutability.Proofs.Toml.Text
import Immutability.Toml.Document

/-! Lines are read back as the statements that they write.

    A key, a text and a list of texts are read from their notations, whatever follows them on the line,
    and so a line is read as the statement that it was written for. A text is read line by line, and
    its length is fuel enough. -/

namespace Immutability.Toml

variable {s rest text : List Char} {c : Char} {v : Value} {fuel depth : Nat}

/-! ### Blanks -/

/-- A character that is neither passed over nor ends a line. -/
def Begins (c : Char) : Prop := isBlank c = false ∧ c ≠ '\n' ∧ c ≠ '\r' ∧ c ≠ '#'

instance : DecidablePred Begins := fun _ => inferInstanceAs (Decidable (_ ∧ _ ∧ _ ∧ _))

theorem skipBlanks_cons (h : isBlank c = false) (rest : List Char) :
    skipBlanks (c :: rest) = c :: rest := by
  rw [skipBlanks, List.dropWhile_cons_of_neg (by simp [h])]

theorem endLine_newline (rest : List Char) : endLine ('\n' :: rest) = some rest := rfl

theorem skipBlanks_space (rest : List Char) : skipBlanks (' ' :: rest) = skipBlanks rest := rfl

theorem skipLines_of_skipBlanks (h : skipBlanks s = c :: rest) (hc : Begins c) :
    skipLines (fuel + 1) s = c :: rest := by
  obtain ⟨-, hn, hr, hs⟩ := hc
  have hcomment : skipComment (c :: rest) = c :: rest := by
    rw [skipComment]
    simp [hs]
  have hnewline : newline? (c :: rest) = none := by
    rw [newline?]
    all_goals simp_all
  rw [skipLines]
  simp only [h, hcomment, hnewline]

theorem skipLines_cons (h : Begins c) (rest : List Char) : skipLines fuel (c :: rest) = c :: rest := by
  cases fuel with
  | zero => rfl
  | succ fuel => exact skipLines_of_skipBlanks (skipBlanks_cons h.1 rest) h

theorem skipLines_newline (rest : List Char) :
    skipLines (fuel + 1) ('\n' :: rest) = skipLines fuel rest := rfl

/-! ### Keys -/

/-- A character with which a key starts. -/
def StartsKey (c : Char) : Prop := c = '"' ∨ c = quote ∨ isBareKeyChar c = true

instance : DecidablePred StartsKey := fun _ => inferInstanceAs (Decidable (_ ∨ _ ∨ _))

theorem StartsKey.ne {d : Char} (h : StartsKey c) (hd : ¬ StartsKey d) : c ≠ d := by
  rintro rfl
  exact hd h

theorem StartsKey.begins (h : StartsKey c) : Begins c := by
  have hs : c ≠ ' ' := h.ne (by decide)
  have ht : c ≠ '\t' := h.ne (by decide)
  exact ⟨by simp [isBlank, hs, ht], h.ne (by decide), h.ne (by decide), h.ne (by decide)⟩

theorem exists_writeKey_eq_cons (s : List Char) : ∃ c more, writeKey s = c :: more ∧ StartsKey c := by
  unfold writeKey
  dsimp only
  split
  · rename_i h
    obtain ⟨hne, hb⟩ : s ≠ [] ∧ ∀ c ∈ s, isBareKeyChar c = true := by simpa using h
    obtain ⟨c, s, rfl⟩ := List.exists_cons_of_ne_nil hne
    exact ⟨c, s, rfl, Or.inr (Or.inr (hb c List.mem_cons_self))⟩
  split
  · exact ⟨_, _, rfl, Or.inl rfl⟩
  split
  · exact ⟨_, _, rfl, Or.inr (Or.inl rfl)⟩
  · exact ⟨_, _, rfl, Or.inl rfl⟩

theorem scanKey_basic (s rest : List Char) :
    scanKey (basic s ++ rest) = some (String.ofList s, rest) := by
  have hb : basic s ++ rest = '"' :: (basicBody false 0 0 s ++ '"' :: rest) := by simp [basic]
  rw [hb, scanKey, scanBasic_basicBody]
  rfl

theorem scanKey_bare (hne : s ≠ []) (hs : ∀ c ∈ s, isBareKeyChar c = true)
    (hc : isBareKeyChar c = false) :
    scanKey (s ++ c :: rest) = some (String.ofList s, c :: rest) := by
  have htake : (s ++ c :: rest).takeWhile isBareKeyChar = s := by
    rw [List.takeWhile_append_of_pos hs, List.takeWhile_cons_of_neg (by simp [hc]), List.append_nil]
  have hdrop : (s ++ c :: rest).dropWhile isBareKeyChar = c :: rest := by
    rw [List.dropWhile_append_of_pos hs, List.dropWhile_cons_of_neg (by simp [hc])]
  obtain ⟨d, more, rfl⟩ := List.exists_cons_of_ne_nil hne
  have hd := hs d List.mem_cons_self
  rw [List.cons_append] at htake hdrop ⊢
  rw [scanKey, htake, hdrop]
  · rfl
  · rintro more' h
    rw [(List.cons.inj h).1] at hd
    exact absurd hd (by decide)
  · rintro more' h
    rw [(List.cons.inj h).1] at hd
    exact absurd hd (by decide)

/-- A key is read back from the notation in which it is written. -/
theorem scanKey_writeKey (s : List Char) (hc : isBareKeyChar c = false) :
    scanKey (writeKey s ++ c :: rest) = some (String.ofList s, c :: rest) := by
  unfold writeKey
  dsimp only
  split
  · rename_i h
    obtain ⟨hne, hb⟩ : s ≠ [] ∧ ∀ c ∈ s, isBareKeyChar c = true := by simpa using h
    exact scanKey_bare hne hb hc
  split
  · exact scanKey_basic s _
  split
  · rename_i h
    obtain ⟨hp, hr⟩ : (∀ c ∈ s, isPlain c = true) ∧ longestRun quote s = 0 := by simpa using h
    have hq := (longestRun_le_iff.1 (Nat.le_of_eq hr)).notMem
    have hscan := scanLiteral_append hp hq (c :: rest)
    have hl : literal s ++ c :: rest = quote :: (s ++ quote :: c :: rest) := by simp [literal]
    rw [hl, quote, scanKey, ← quote, hscan]
    rfl
  · exact scanKey_basic s _

/-- The keys of a path with dots between them. -/
def writePath : List String → List Char
  | [] => []
  | [key] => writeKey key.toList
  | key :: keys => writeKey key.toList ++ '.' :: writePath keys

theorem skipBlanks_writeKey (s rest : List Char) :
    skipBlanks (writeKey s ++ rest) = writeKey s ++ rest := by
  obtain ⟨c, more, hw, hc⟩ := exists_writeKey_eq_cons s
  rw [hw, List.cons_append, skipBlanks_cons hc.begins.1]

theorem exists_writePath_eq_cons {keys : List String} (hk : keys ≠ []) :
    ∃ c more, writePath keys = c :: more ∧ StartsKey c := by
  cases keys with
  | nil => exact absurd rfl hk
  | cons key keys =>
    obtain ⟨c, more, hw, hc⟩ := exists_writeKey_eq_cons key.toList
    cases keys with
    | nil => exact ⟨c, more, hw, hc⟩
    | cons next keys =>
      refine ⟨c, more ++ '.' :: writePath (next :: keys), ?_, hc⟩
      rw [writePath, hw, List.cons_append]
      exact List.cons_ne_nil next keys

theorem scanKeys_writePath {keys : List String} (hk : keys ≠ []) (hf : keys.length ≤ fuel)
    (hc : isBareKeyChar c = false) (hdot : ∀ more, skipBlanks (c :: rest) ≠ '.' :: more) :
    scanKeys fuel (writePath keys ++ c :: rest) = some (keys, skipBlanks (c :: rest)) := by
  induction keys generalizing fuel with
  | nil => exact absurd rfl hk
  | cons key keys ih =>
    obtain ⟨fuel, rfl⟩ := Nat.exists_eq_add_one.2 (Nat.lt_of_lt_of_le (Nat.succ_pos _) hf)
    cases keys with
    | nil =>
      rw [writePath, scanKeys, skipBlanks_writeKey, scanKey_writeKey _ hc]
      dsimp only
      split
      · rename_i h
        exact absurd h (hdot _)
      · rw [String.ofList_toList]
    | cons next keys =>
      have h := ih (List.cons_ne_nil next keys) (Nat.le_of_succ_le_succ hf)
      rw [writePath, List.append_assoc, List.cons_append, scanKeys, skipBlanks_writeKey,
        scanKey_writeKey _ (by decide)]
      dsimp only
      · simp only [skipBlanks_cons (show isBlank '.' = false by decide), h, String.ofList_toList]
        rfl
      · exact List.cons_ne_nil next keys

/-- A path is read back from its keys, up to the blanks behind them. -/
theorem scanPath_writePath {path : List String} {key : String} (hl : path.length + 1 < limit)
    (hc : isBareKeyChar c = false) (hdot : ∀ more, skipBlanks (c :: rest) ≠ '.' :: more) :
    scanPath (writePath (path ++ [key]) ++ c :: rest) = some (path, key, skipBlanks (c :: rest)) := by
  have hlen : (path ++ [key]).length < limit := by simpa using hl
  rw [scanPath, scanKeys_writePath (by simp) (Nat.le_of_lt hlen) hc hdot]
  simp [hl]

/-! ### Values -/

theorem exists_writeText_eq_cons (s : List Char) :
    ∃ c more, writeText s = c :: more ∧ (c = '"' ∨ c = quote) := by
  unfold writeText
  dsimp only
  split
  · exact ⟨_, _, rfl, Or.inl rfl⟩
  split
  · exact ⟨_, _, rfl, Or.inr rfl⟩
  split
  · exact ⟨_, _, rfl, Or.inl rfl⟩
  split
  · exact ⟨_, _, rfl, Or.inr rfl⟩
  split
  · exact ⟨_, _, rfl, Or.inl rfl⟩
  · exact ⟨_, _, rfl, Or.inl rfl⟩

theorem begins_quote (h : c = '"' ∨ c = quote) : Begins c ∧ c ≠ '[' ∧ c ≠ ']' := by
  rcases h with rfl | rfl
  · decide
  · decide

theorem scanValue_writeText (s : List Char) (hd : c ≠ '"') (hq : c ≠ quote) :
    scanValue (fuel + 1) depth (writeText s ++ c :: rest) =
      some (.text (String.ofList s), c :: rest) := by
  have hscan : scanText (writeText s ++ c :: rest) = some (s, c :: rest) :=
    scanText_writeText s (by simpa using hd) (by simpa using hq)
  obtain ⟨d, more, hw, rfl | rfl⟩ := exists_writeText_eq_cons s
  · rw [hw] at hscan ⊢
    rw [List.cons_append, scanValue, ← List.cons_append, hscan]
    rfl
  · rw [hw] at hscan ⊢
    rw [List.cons_append, quote, scanValue, ← quote, ← List.cons_append, hscan]
    rfl

/-- An item is taken from a list, and what follows it says whether there are more. -/
theorem scanItems_text {item : String} (h : skipLines (fuel + 1) s = writeText item.toList ++ c :: rest)
    (hc : c = ',' ∨ c = ']') : scanItems (fuel + 2) depth s =
      if c = ',' then (scanItems (fuel + 1) depth rest).map fun (vs, rest) => (.text item :: vs, rest)
      else some ([.text item], rest) := by
  have hne : c ≠ '"' ∧ c ≠ quote := by
    rcases hc with rfl | rfl
    · decide
    · decide
  have hvalue : scanValue (fuel + 1) depth (writeText item.toList ++ c :: rest) =
      some (.text item, c :: rest) := by
    rw [scanValue_writeText _ hne.1 hne.2, String.ofList_toList]
  obtain ⟨d, more, hw, hd⟩ := exists_writeText_eq_cons item.toList
  rw [hw, List.cons_append] at h hvalue
  rw [scanItems, h]
  split
  · rename_i h'
    exact absurd (List.cons.inj h').1 (begins_quote hd).2.2
  rw [hvalue]
  rcases hc with rfl | rfl
  · simp only [skipLines_cons (show Begins ',' by decide)]
    rfl
  · simp only [skipLines_cons (show Begins ']' by decide)]
    rfl

/-- The items of a list, each on a line of its own. -/
def writeRows (items : List String) : List Char :=
  items.flatMap fun s => "    ".toList ++ writeText s.toList ++ [',', '\n']

theorem length_le_writeRows (items : List String) : items.length ≤ (writeRows items).length := by
  induction items with
  | nil => exact Nat.zero_le _
  | cons item items ih =>
    rw [writeRows, List.flatMap_cons, ← writeRows, List.length_append, List.length_append,
      List.length_cons]
    have h : [',', '\n'].length = 2 := rfl
    omega

theorem scanItems_writeRows {items : List String} (hf : items.length + 2 < fuel) (depth : Nat)
    (rest : List Char) :
    scanItems fuel depth ('\n' :: (writeRows items ++ ']' :: rest)) =
      some (items.map .text, rest) := by
  induction items generalizing fuel with
  | nil =>
    obtain ⟨f, rfl⟩ : ∃ f, fuel = f + 2 := ⟨fuel - 2, by omega⟩
    rw [writeRows, List.flatMap_nil, List.nil_append, scanItems, skipLines_newline,
      skipLines_cons (by decide)]
    rfl
  | cons item items ih =>
    rw [List.length_cons] at hf
    obtain ⟨f, rfl⟩ : ∃ f, fuel = f + 3 := ⟨fuel - 3, by omega⟩
    have hrow : writeRows (item :: items) ++ ']' :: rest = ' ' :: ' ' :: ' ' :: ' ' ::
        (writeText item.toList ++ ',' :: '\n' :: (writeRows items ++ ']' :: rest)) := by
      simp [writeRows]
    obtain ⟨d, more, hw, hd⟩ := exists_writeText_eq_cons item.toList
    have hskip : skipLines (f + 2) ('\n' :: (writeRows (item :: items) ++ ']' :: rest)) =
        writeText item.toList ++ ',' :: '\n' :: (writeRows items ++ ']' :: rest) := by
      have hbegins := (begins_quote hd).1
      rw [hrow, hw, skipLines_newline]
      exact skipLines_of_skipBlanks (skipBlanks_cons hbegins.1 _) hbegins
    rw [scanItems_text hskip (Or.inl rfl), if_pos rfl, ih (by omega)]
    rfl

/-- A text is read as a value if its line ends behind it. -/
structure Notes (text : List Char) (v : Value) : Prop where
  begins : ∃ c more, text = c :: more ∧ Begins c
  scan (fuel : Nat) (rest : List Char) (hf : text.length + 2 < fuel) :
    scanValue fuel 0 (text ++ '\n' :: rest) = some (v, '\n' :: rest)

theorem notes_writeText (s : String) : Notes (writeText s.toList) (.text s) where
  begins := by
    obtain ⟨c, more, hw, hc⟩ := exists_writeText_eq_cons s.toList
    exact ⟨c, more, hw, (begins_quote hc).1⟩
  scan fuel rest hf := by
    obtain ⟨f, rfl⟩ : ∃ f, fuel = f + 1 := ⟨fuel - 1, by omega⟩
    rw [scanValue_writeText _ (by decide) (by decide), String.ofList_toList]

theorem notes_boolean (b : Bool) :
    Notes (if b then "true" else "false").toList (.boolean b) where
  begins := by
    cases b
    · exact ⟨'f', _, rfl, by decide⟩
    · exact ⟨'t', _, rfl, by decide⟩
  scan fuel rest hf := by
    obtain ⟨f, rfl⟩ : ∃ f, fuel = f + 1 := ⟨fuel - 1, by omega⟩
    cases b
    · rfl
    · rfl

theorem notes_nil : Notes ['[', ']'] (.sequence [] false) where
  begins := ⟨'[', _, rfl, by decide⟩
  scan fuel rest hf := by
    obtain ⟨f, rfl⟩ : ∃ f, fuel = f + 2 := ⟨fuel - 2, by omega⟩
    have hitems : scanItems (f + 1) 1 (']' :: '\n' :: rest) = some ([], '\n' :: rest) := by
      rw [scanItems, skipLines_cons (by decide)]
      rfl
    rw [List.cons_append, List.singleton_append, scanValue, if_pos (by decide), hitems]
    rfl

theorem notes_singleton (s : String) :
    Notes ('[' :: (writeText s.toList ++ [']'])) (.sequence [.text s] false) where
  begins := ⟨'[', _, rfl, by decide⟩
  scan fuel rest hf := by
    obtain ⟨f, rfl⟩ : ∃ f, fuel = f + 3 := ⟨fuel - 3, by omega⟩
    obtain ⟨d, more, hw, hd⟩ := exists_writeText_eq_cons s.toList
    have hskip : skipLines (f + 1) (writeText s.toList ++ ']' :: '\n' :: rest) =
        writeText s.toList ++ ']' :: '\n' :: rest := by
      rw [hw, List.cons_append, skipLines_cons (begins_quote hd).1]
    rw [List.cons_append, List.append_assoc, List.singleton_append, scanValue, if_pos (by decide),
      scanItems_text hskip (Or.inr rfl)]
    rfl

theorem notes_writeRows (items : List String) :
    Notes ('[' :: '\n' :: (writeRows items ++ [']'])) (.sequence (items.map .text) false) where
  begins := ⟨'[', _, rfl, by decide⟩
  scan fuel rest hf := by
    have hlen := length_le_writeRows items
    obtain ⟨f, rfl⟩ : ∃ f, fuel = f + 1 := ⟨fuel - 1, by omega⟩
    simp only [List.length_cons, List.length_append] at hf
    rw [List.cons_append, List.cons_append, List.append_assoc, List.singleton_append, scanValue,
      if_pos (by decide), scanItems_writeRows (by omega)]
    rfl

/-! ### Lines -/

/-- The line of a key and its value. -/
def writeLine (key : String) (text : List Char) : List Char :=
  writeKey key.toList ++ " = ".toList ++ text

/-- The line that opens the table of a path. -/
def writeHeader (path : List String) : List Char := '[' :: (writePath path ++ [']'])

theorem scanStatement_writeLine (key : String) (h : Notes text v) (rest : List Char) :
    scanStatement (writeLine key text ++ '\n' :: rest) = some (.assignment [] key v, rest) := by
  obtain ⟨d, more, rfl, hd⟩ := h.begins
  have hline : writeLine key (d :: more) ++ '\n' :: rest =
      writePath ([] ++ [key]) ++ ' ' :: '=' :: ' ' :: (d :: more ++ '\n' :: rest) := by
    simp [writeLine, writePath]
  have hpath : scanPath (writeLine key (d :: more) ++ '\n' :: rest) =
      some ([], key, '=' :: ' ' :: (d :: more ++ '\n' :: rest)) := by
    rw [hline]
    exact scanPath_writePath (by decide) (by decide) nofun
  have hvalue := h.scan (2 * (' ' :: (d :: more ++ '\n' :: rest)).length + 2) rest
    (by simp; omega)
  obtain ⟨k, word, hw, hk⟩ := exists_writeKey_eq_cons key.toList
  have hstart : writeLine key (d :: more) ++ '\n' :: rest =
      k :: (word ++ " = ".toList ++ d :: more ++ '\n' :: rest) := by
    rw [writeLine, hw]
    simp
  rw [hstart] at hpath ⊢
  have hne : k ≠ '[' := hk.ne (by decide)
  rw [scanStatement]
  · rw [List.cons_append] at hvalue
    simp only [hpath, List.cons_append, skipBlanks_space, skipBlanks_cons hd.1, hvalue,
      endLine_newline]
    rfl
  all_goals simp [hne]

theorem scanStatement_writeHeader {path : List String} {key : String}
    (hl : path.length + 1 < limit) (rest : List Char) :
    scanStatement (writeHeader (path ++ [key]) ++ '\n' :: rest) = some (.header path key, rest) := by
  have hkeys : path ++ [key] ≠ [] := by simp
  obtain ⟨c, more, hw, hc⟩ := exists_writePath_eq_cons hkeys
  have hpath : scanPath (writePath (path ++ [key]) ++ ']' :: '\n' :: rest) =
      some (path, key, ']' :: '\n' :: rest) :=
    scanPath_writePath hl (by decide) nofun
  have hne : c ≠ '[' := hc.ne (by decide)
  rw [writeHeader, List.cons_append, List.append_assoc, List.singleton_append]
  rw [hw, List.cons_append] at hpath ⊢
  rw [scanStatement]
  · simp only [hpath, endLine_newline]
    rfl
  · simp [hne]

/-! ### Texts -/

/-- A text is read as statements, in as many steps as it has characters. -/
def Reads (text : List Char) (statements : List Statement) : Prop :=
  ∀ fuel, text.length < fuel → scanStatements fuel text = some statements

theorem reads_nil : Reads [] [] := by
  intro fuel hf
  obtain ⟨f, rfl⟩ : ∃ f, fuel = f + 1 := ⟨fuel - 1, by omega⟩
  rfl

variable {statements : List Statement}

/-- An empty line is passed over. -/
theorem Reads.newline (h : Reads text statements) : Reads ('\n' :: text) statements := by
  intro fuel hf
  obtain ⟨f, rfl⟩ : ∃ f, fuel = f + 1 := ⟨fuel - 1, by omega⟩
  rw [List.length_cons] at hf
  exact h f (by omega)

/-- A line is read as its statement. -/
theorem Reads.line {line : List Char} {next : Statement} (h : Reads text statements) (hc : Begins c)
    (hs : scanStatement (c :: (line ++ '\n' :: text)) = some (next, text)) :
    Reads (c :: (line ++ '\n' :: text)) (next :: statements) := by
  intro fuel hf
  obtain ⟨f, rfl⟩ : ∃ f, fuel = f + 1 := ⟨fuel - 1, by omega⟩
  obtain ⟨hb, hn, hr, hcomment⟩ := hc
  have hlen : text.length < f := by
    simp at hf
    omega
  have hnot : ¬ (c = '#' ∨ c = '\n' ∨ c = '\r') := by simp [hn, hr, hcomment]
  rw [scanStatements, skipBlanks_cons hb]
  simp only [if_neg hnot, hs, h f hlen]
  rfl

/-- What is read as statements has no mark in front of it. -/
theorem Reads.dropMark (h : Reads text statements) : dropMark text = text := by
  unfold Toml.dropMark
  split
  · rename_i more
    have hnone : scanStatements (('\ufeff' :: more).length + 1) ('\ufeff' :: more) = none := rfl
    cases hnone.symm.trans (h _ (Nat.lt_succ_self _))
  · rfl

/-- The entries of a text are those that its statements make. -/
theorem Reads.read {s : String} (h : Reads s.toList statements) :
    read s = (Draft.takeAll statements {}).map fun d => finishEntries d.root := by
  rw [Toml.read, h.dropMark]
  simp only [h _ (Nat.lt_succ_self _)]

/-- Lines are read as statements, whatever lines follow. -/
def Lines (text : List Char) (statements : List Statement) : Prop :=
  ∀ rest more, Reads rest more → Reads (text ++ rest) (statements ++ more)

theorem lines_nil : Lines [] [] := fun _ _ h => h

theorem Lines.append {text' : List Char} {statements' : List Statement}
    (h : Lines text statements) (h' : Lines text' statements') :
    Lines (text ++ text') (statements ++ statements') := by
  intro rest more hr
  rw [List.append_assoc, List.append_assoc]
  exact h _ _ (h' _ _ hr)

theorem lines_newlines (n : Nat) : Lines (List.replicate n '\n') [] := by
  intro rest more h
  induction n with
  | zero => exact h
  | succ n ih => exact ih.newline

theorem lines_writeLine (key : String) (h : Notes text v) :
    Lines (writeLine key text ++ ['\n']) [.assignment [] key v] := by
  intro rest more hr
  have hs := scanStatement_writeLine key h rest
  obtain ⟨c, word, hw, hc⟩ := exists_writeKey_eq_cons key.toList
  have hline : writeLine key text ++ '\n' :: rest =
      c :: (word ++ " = ".toList ++ text ++ '\n' :: rest) := by
    rw [writeLine, hw]
    simp
  rw [hline] at hs
  rw [List.append_assoc, List.singleton_append, hline]
  exact hr.line hc.begins hs

theorem lines_writeHeader {path : List String} (hl : path.length + 1 < limit) (key : String) :
    Lines (writeHeader (path ++ [key]) ++ ['\n']) [.header path key] := by
  intro rest more hr
  rw [List.append_assoc, List.singleton_append]
  exact hr.line (by decide) (scanStatement_writeHeader hl rest)

/-- The entries of a text that consists of lines are those that its statements make. -/
theorem Lines.read {s : String} (h : Lines s.toList statements) :
    read s = (Draft.takeAll statements {}).map fun d => finishEntries d.root := by
  have hr := h [] [] reads_nil
  rw [List.append_nil, List.append_nil] at hr
  exact hr.read

end Immutability.Toml
