/-! The command line.

    Options may stand before and after the command, in long and in short form, and short ones may be
    drawn together. The configuration and the wish for detail belong to every command; what is said
    after the command wins over what is said before it. -/

namespace Immutability

/-- What the program is asked to do. -/
inductive Command where
  | check (paths : List String) (output : String) (markdown : Option String)
  | explain (path typeName : String)
  | registry
  deriving DecidableEq

/-- A command with what belongs to every command. -/
structure Invocation where
  config : Option String
  verbose : Bool
  command : Command
  deriving DecidableEq

/-- Why a command line names no command to run. -/
inductive Refusal where | version | help | misuse
  deriving DecidableEq

namespace CommandLine

/-! ### Options -/

/-- An option without a value. -/
inductive Switch where | verbose | version | help
  deriving DecidableEq

/-- An option with a value. -/
inductive Setting where | config | output | markdown
  deriving DecidableEq

/-- An option. -/
inductive OptionKind where
  | switch (s : Switch)
  | setting (s : Setting)
  deriving DecidableEq

/-- What may stand at one level of the command line: before the command, or after one. -/
structure Level where
  long : String → Option OptionKind
  short : Char → Option OptionKind
  /-- The level ends at its first argument that is no option. -/
  endsAtWord : Bool
  /-- An argument may stand at a place among those that are no options. -/
  accepts : Nat → String → Bool

/-- The options of every level by their names. -/
def commonLong : String → Option OptionKind
  | "config" => some (.setting .config)
  | "verbose" => some (.switch .verbose)
  | "help" => some (.switch .help)
  | _ => none

/-- The options of every level by their letters. -/
def commonShort : Char → Option OptionKind
  | 'c' => some (.setting .config)
  | 'v' => some (.switch .verbose)
  | 'h' => some (.switch .help)
  | _ => none

/-- The level before the command. -/
def outerLevel : Level where
  long name := if name = "version" then some (.switch .version) else commonLong name
  short c := if c = 'V' then some (.switch .version) else commonShort c
  endsAtWord := true
  accepts _ _ := false

/-- The level after `check`. -/
def checkLevel : Level where
  long
    | "output" => some (.setting .output)
    | "markdown" => some (.setting .markdown)
    | name => commonLong name
  short
    | 'o' => some (.setting .output)
    | 'm' => some (.setting .markdown)
    | c => commonShort c
  endsAtWord := false
  accepts _ path := path ≠ ""

/-- The level after `explain`. -/
def explainLevel : Level where
  long := commonLong
  short := commonShort
  endsAtWord := false
  accepts i word := (i = 0 && word ≠ "") || i = 1

/-- The level after `registry`. -/
def registryLevel : Level where
  long := commonLong
  short := commonShort
  endsAtWord := false
  accepts _ _ := false

/-! ### Scanning -/

/-- What has been given at one level. -/
structure Given where
  verbose : Bool := false
  config : Option String := none
  output : Option String := none
  markdown : Option String := none
  words : List String := []

/-- Takes an option without a value. None may be repeated. -/
def Given.turnOn (g : Given) : Switch → Except Refusal Given
  | .verbose => if g.verbose then .error .misuse else .ok { g with verbose := true }
  | .version => .error .version
  | .help => .error .help

/-- Takes an option with its value, which is a path. None may be repeated. -/
def Given.set (g : Given) (s : Setting) (value : String) : Except Refusal Given :=
  if value = "" then .error .misuse
  else
    match s with
    | .config => if g.config.isSome then .error .misuse else .ok { g with config := some value }
    | .output => if g.output.isSome then .error .misuse else .ok { g with output := some value }
    | .markdown =>
      if g.markdown.isSome then .error .misuse else .ok { g with markdown := some value }

/-- Takes an argument that is no option. -/
def Given.addWord (l : Level) (g : Given) (word : String) : Except Refusal Given :=
  if l.accepts g.words.length word then .ok { g with words := g.words ++ [word] }
  else .error .misuse

/-- Takes short options drawn together. The first that needs a value has the rest for its value,
    after an optional equals sign; with nothing left it waits for the next argument. -/
def takeLetters (l : Level) : Given → List Char → Except Refusal (Given × Option Setting)
  | g, [] => .ok (g, none)
  | g, c :: cs =>
    match l.short c with
    | none => .error .misuse
    | some (.switch s) =>
      match g.turnOn s with
      | .error e => .error e
      | .ok g => takeLetters l g cs
    | some (.setting s) =>
      match cs with
      | [] => .ok (g, some s)
      | '=' :: value => (g.set s (String.ofList value)).map fun g => (g, none)
      | value => (g.set s (String.ofList value)).map fun g => (g, none)

/-- The name of a long option and its value, if one is attached. -/
def splitEquals : List Char → List Char × Option (List Char)
  | [] => ([], none)
  | c :: cs =>
    if c = '=' then ([], some cs)
    else
      let (name, value) := splitEquals cs
      (c :: name, value)

/-- Takes a long option. One that needs a value and has none attached waits for the next argument. -/
def takeLong (l : Level) (g : Given) (cs : List Char) :
    Except Refusal (Given × Option Setting) :=
  let (name, value) := splitEquals cs
  match l.long (String.ofList name), value with
  | none, _ => .error .misuse
  | some (.switch _), some _ => .error .misuse
  | some (.switch s), none => (g.turnOn s).map fun g => (g, none)
  | some (.setting s), some value => (g.set s (String.ofList value)).map fun g => (g, none)
  | some (.setting s), none => .ok (g, some s)

/-- The argument looks like an option. A dash alone does not. -/
def looksLikeOption (arg : String) : Bool :=
  match arg.toList with
  | '-' :: _ :: _ => true
  | _ => false

/-- Takes arguments that are all no options. -/
def addWords (l : Level) : Given → List String → Except Refusal Given
  | g, [] => .ok g
  | g, word :: words => (g.addWord l word).bind fun g => addWords l g words

/-- Takes the arguments of a level, and gives those after the word that ends it. -/
def scan (l : Level) : Given → List String → Except Refusal (Given × List String)
  | g, [] => .ok (g, [])
  | g, arg :: rest =>
    match arg.toList with
    | ['-', '-'] => (addWords l g rest).map fun g => (g, [])
    | '-' :: c :: cs =>
      match if c = '-' then takeLong l g cs else takeLetters l g (c :: cs) with
      | .error e => .error e
      | .ok (g, none) => scan l g rest
      | .ok (g, some s) =>
        match rest with
        | [] => .error .misuse
        | value :: rest =>
          if looksLikeOption value then .error .misuse
          else
            match g.set s value with
            | .error e => .error e
            | .ok g => scan l g rest
    | _ =>
      if l.endsAtWord then .ok (g, arg :: rest)
      else
        match g.addWord l arg with
        | .error e => .error e
        | .ok g => scan l g rest

/-! ### Commands -/

/-- The invocation of a command with what was given before it and after it. -/
def invocation (outer inner : Given) (command : Command) : Invocation :=
  { config := inner.config.or outer.config
    verbose := outer.verbose || inner.verbose
    command }

/-- The command of a word and what was given after it. -/
def command (word : String) (inner : Given) : Except Refusal Command :=
  match word, inner.words with
  | "check", path :: paths =>
    .ok (.check (path :: paths) (inner.output.getD "report.json") inner.markdown)
  | "explain", [path, typeName] => .ok (.explain path typeName)
  | "registry", [] => .ok .registry
  | _, _ => .error .misuse

/-- The level after a word. -/
def level? : String → Option Level
  | "check" => some checkLevel
  | "explain" => some explainLevel
  | "registry" => some registryLevel
  | _ => none

/-- The answer to the word `help`, which may be followed by the name of a command. -/
def helpOn : List String → Refusal
  | [] => .help
  | [word] => if word = "help" || (level? word).isSome then .help else .misuse
  | _ => .misuse

/-- What a command line asks for. -/
def parse (args : List String) : Except Refusal Invocation :=
  match scan outerLevel {} args with
  | .error e => .error e
  | .ok (_, []) => .error .misuse
  | .ok (outer, word :: rest) =>
    match level? word with
    | none => .error (if word = "help" then helpOn rest else .misuse)
    | some l =>
      match scan l {} rest with
      | .error e => .error e
      | .ok (inner, _) => (command word inner).map (invocation outer inner)

end CommandLine

end Immutability
