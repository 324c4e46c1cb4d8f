import SecretHitler.Arena.Report
import SecretHitler.Rules.File
/-!
# The command line

The arena as a program: its options, what it refuses to play, and what it
prints. An option is written `--name value`, `--name=value` or, where it has
a letter, `-l value`, `-lvalue` or `-l=value`; each at most once, and nothing
else may be given.
-/

namespace SecretHitler

namespace CommandLine

/-- The options of a run. -/
structure Options where
  games : Nat := 1000
  players : Nat := 7
  seed : Nat := 0
  liberals : Bot := .partisan
  fascists : Bot := .partisan
  /-- The rules file that is asked for. -/
  rules : Option String := none
deriving DecidableEq

/-- What an option sets. -/
inductive Setting
  | games
  | players
  | seed
  | liberals
  | fascists
  | rules
deriving DecidableEq

namespace Setting

/-- The setting of a long name. -/
def ofName? (name : String) : Option Setting :=
  [ ("games", games), ("players", players), ("seed", seed), ("liberals", liberals),
    ("fascists", fascists), ("rules", rules) ].lookup name

/-- The setting of a letter. -/
def ofLetter? (c : Char) : Option Setting :=
  [('g', games), ('p', players), ('s', seed)].lookup c

/-- A number of 64 bits: digits, with or without a plus sign. -/
def number? (s : String) : Option Nat :=
  let digits := match s.toList with
    | '+' :: rest => rest
    | cs => cs
  let n := Nat.ofDigitChars 10 digits 0
  if !digits.isEmpty && digits.all Char.isDigit && n < UInt64.size then some n else none

/-- Sets a value, if it is one of the setting's. -/
def apply (o : Options) (value : String) : Setting → Option Options
  | games => (number? value).map fun n => { o with games := n }
  | players => (number? value).map fun n => { o with players := n }
  | seed => (number? value).map fun n => { o with seed := n }
  | liberals => (Bot.ofName? value).map fun b => { o with liberals := b }
  | fascists => (Bot.ofName? value).map fun b => { o with fascists := b }
  | rules => if value.isEmpty then none else some { o with rules := some value }

end Setting

/-- What the arguments ask for. -/
inductive Request
  | run (options : Options)
  | help
  | misused
deriving DecidableEq

/-- What one argument is. -/
inductive Argument
  /-- An option whose value, if there is none yet, is the next argument. -/
  | setting (setting : Setting) (value : Option String)
  | help
  | unknown
deriving DecidableEq

/-- The argument of a long option, behind its dashes. -/
def longArgument (cs : List Char) : Argument :=
  let name := String.ofList (cs.takeWhile (· ≠ '='))
  let value := match cs.dropWhile (· ≠ '=') with
    | _ :: value => some (String.ofList value)
    | [] => none
  if name = "help" ∧ value = none then .help
  else
    match Setting.ofName? name with
    | some s => .setting s value
    | none => .unknown

/-- The argument of a letter and what is written behind it. -/
def letterArgument (c : Char) (behind : List Char) : Argument :=
  if c = 'h' then .help
  else
    match Setting.ofLetter? c, behind with
    | none, _ => .unknown
    | some s, [] => .setting s none
    | some s, '=' :: value => .setting s (some (String.ofList value))
    | some s, value => .setting s (some (String.ofList value))

/-- What an argument is. -/
def argument (arg : String) : Argument :=
  match arg.toList with
  | '-' :: '-' :: cs => longArgument cs
  | '-' :: c :: cs => letterArgument c cs
  | _ => .unknown

/-- Whether an argument can be the value of an option before it. -/
def isValue (arg : String) : Bool :=
  match arg.toList with
  | '-' :: _ :: _ => false
  | _ => true

/-- Reads arguments from first to last; `given` has been set already. -/
def parseFrom (given : List Setting) (o : Options) : List String → Request
  | [] => .run o
  | ["--"] => .run o
  | arg :: rest =>
    match argument arg with
    | .help => .help
    | .unknown => .misused
    | .setting s (some value) =>
      if given.contains s then .misused
      else
        match s.apply o value with
        | some o => parseFrom (s :: given) o rest
        | none => .misused
    | .setting s none =>
      match rest with
      | [] => .misused
      | value :: rest =>
        if given.contains s || !isValue value then .misused
        else
          match s.apply o value with
          | some o => parseFrom (s :: given) o rest
          | none => .misused

/-- Names a rules file that the environment names, if no option does. -/
def underEnvironment (environment : Option String) (o : Options) : Request :=
  match o.rules, environment with
  | none, some path =>
    match Setting.rules.apply o path with
    | some o => .run o
    | none => .misused
  | _, _ => .run o

/-- What arguments ask for, in an environment that may name a rules file. -/
def parse (environment : Option String) (args : List String) : Request :=
  match parseFrom [] {} args with
  | .run o => underEnvironment environment o
  | request => request

/-- What a run leaves: its exit code, and what it printed. -/
structure Report where
  exit : Nat
  output : Option String
  error : Option String
deriving DecidableEq

namespace Report

/-- The report of misused options. -/
def misused : Report := ⟨2, none, none⟩

/-- The report of a request for help. -/
def help : Report := ⟨0, none, none⟩

/-- The report of a run that fails with a diagnostic. -/
def failed (diagnostic : String) : Report := ⟨1, none, some ("Error: " ++ diagnostic)⟩

/-- The report of a run that breaks off. -/
def crashed : Report := ⟨101, none, none⟩

/-- The report of an arena. -/
def ofTally : Except MatchError Tally → Report
  | .error (.fault _) => crashed
  | .error e => failed e.text
  | .ok t =>
    match t.summary with
    | .ok summary => ⟨0, some summary, none⟩
    | .error _ => crashed

end Report

namespace Options

/-- The name under which rules files are looked for. -/
def rulesFile : String := "game_rules.toml"

/-- The rules files of a run, the first to be tried first. -/
def rulesFiles (o : Options) : List String :=
  o.rules.toList ++ [rulesFile, "../" ++ rulesFile]

/-- The strategies of a run. -/
def lineup (o : Options) : Lineup ChaCha := ⟨o.liberals.strategy, o.fascists.strategy⟩

/-- Why a run is refused: the rules do not cover its table. -/
def refusal (o : Options) (rules : Rules) : Option Report :=
  if (rules.configurationFor o.players).isSome then none
  else some <| .failed <| Diagnostic.quoted <|
    "rules do not support " ++ toString o.players ++ " players (" ++
      toString rules.minPlayers.toNat ++ "..=" ++ toString rules.maxPlayers.toNat ++ ")"

/-- Runs the arena by a clock. -/
def runTimed {m : Type → Type} [Monad m] (clock : m (Option Nat)) (o : Options) (rules : Rules) :
    m Report :=
  match o.refusal rules with
  | some report => return report
  | none => return .ofTally (← Arena.runTimed clock rules o.lineup o.players o.games o.seed)

/-- Runs the arena, no time being taken. -/
def run (o : Options) (rules : Rules) : Report := Id.run (o.runTimed (pure none) rules)

end Options

end CommandLine

end SecretHitler
