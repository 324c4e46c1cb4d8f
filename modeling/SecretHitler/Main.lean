import SecretHitler.CommandLine
/-!
# The arena program

Reads the options, looks for rules files, plays the matches one by one by the
clock, and prints the report.
-/

namespace SecretHitler

namespace CommandLine

/-- The variable that names a rules file when no option does. -/
def rulesVariable : String := "SECRET_HITLER_RULES"

/-- How the program is used. -/
def usage : String :=
  "Secret Hitler rules engine self-play arena\n\n" ++
  "Usage: arena [OPTIONS]\n\n" ++
  "Options:\n" ++
  "  -g, --games <GAMES>        Number of games to play [default: 1000]\n" ++
  "  -p, --players <PLAYERS>    Players per game [default: 7]\n" ++
  "  -s, --seed <SEED>          Seed of the first game; game i uses seed + i [default: 0]\n" ++
  "      --liberals <LIBERALS>  [default: partisan] [possible values: random, partisan]\n" ++
  "      --fascists <FASCISTS>  [default: partisan] [possible values: random, partisan]\n" ++
  "      --rules <RULES>        Path to a rules file [env: SECRET_HITLER_RULES]\n" ++
  "  -h, --help                 Print help"

/-- The content of a file, if it can be read. -/
def readFile (path : String) : IO (Option ByteArray) := do
  try return some (← IO.FS.readBinFile path)
  catch _ => return none

/-- Carries out a run, with a watch in hand. -/
def execute (o : Options) : IO Report := do
  let rules := Rules.discover (← o.rulesFiles.mapM readFile)
  o.runTimed (some <$> IO.monoNanosNow) rules

end CommandLine

end SecretHitler

open SecretHitler.CommandLine in
/-- Plays an arena as the arguments ask. -/
def main (args : List String) : IO UInt32 := do
  match parse (← IO.getEnv rulesVariable) args with
  | .misused =>
    IO.eprintln usage
    return 2
  | .help =>
    IO.println usage
    return 0
  | .run o =>
    let report ← execute o
    if let some text := report.output then IO.println text
    if let some text := report.error then IO.eprintln text
    return .ofNat report.exit
