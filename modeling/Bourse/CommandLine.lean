import Bourse.Config
import Bourse.Text.Quoted

/-!
# The Command Line

Arguments are read from left to right, and the first one that ends the program ends
it, whatever comes behind: a call for help, an option without its value, or an
argument that nobody knows. Then the configuration is read from its file, if one is
named, and the environment overrides it.

## Main definitions

* `Arguments`: what the arguments ask for.
* `Arguments.parse`: reads the arguments.
* `Arguments.configure`: the configuration, or how the program ends without one.
* `Exit`: how the program ends.
* `help`: the text of the help.
-/

namespace Bourse

namespace CommandLine

/-- The text of the help. -/
def help : String := "\n".intercalate
  ["papertrade - paper trading against live crypto prices",
   "",
   "USAGE:",
   "    papertrade [OPTIONS]",
   "",
   "OPTIONS:",
   "    --config <PATH>     Load configuration from JSON file",
   "    --watch <SYMBOL>    Print throttled live prices of SYMBOL as JSON lines",
   "    --help              Print this help message",
   "",
   "ENVIRONMENT VARIABLES:",
   "    FEED                Quote feed provider: coinbase | binance",
   "    SYMBOLS             Comma-separated supported symbols (default: BTC,ETH,DOGE)",
   "    RUST_LOG            Log level filter (default: info)",
   "",
   "EXAMPLES:",
   "    # Run with defaults",
   "    papertrade",
   "",
   "    # Watch BTC from Binance",
   "    FEED=binance papertrade --watch BTC",
   ""]

/-- How the program ends: its code, and what it writes to the error stream. -/
structure Exit where
  code : Nat
  errors : String
deriving DecidableEq, Repr

/-- What the arguments ask for. -/
structure Arguments where
  /-- The file of the configuration. -/
  configPath : Option String
  /-- The symbol to watch. -/
  watch : Option String
deriving DecidableEq, Repr

namespace Arguments

/-- Reads arguments on top of those read before. -/
def parseFrom (a : Arguments) : List String → Except Exit Arguments
  | [] => .ok a
  | arg :: rest =>
    if arg = "--help" ∨ arg = "-h" then .error ⟨0, help ++ "\n"⟩
    else if arg = "--config" ∨ arg = "-c" then
      match rest with
      | [] => .error ⟨1, "Error: --config requires a path argument\n"⟩
      | path :: rest => parseFrom { a with configPath := some path } rest
    else if arg = "--watch" ∨ arg = "-w" then
      match rest with
      | [] => .error ⟨1, "Error: --watch requires a symbol\n"⟩
      | symbol :: rest => parseFrom { a with watch := some symbol } rest
    else .error ⟨1, "Unknown argument: " ++ arg ++ "\n" ++ help ++ "\n"⟩

/-- Reads the arguments of the program. -/
def parse (args : List String) : Except Exit Arguments := parseFrom ⟨none, none⟩ args

/-- The error that a configuration ends the program with. -/
def exitOf (e : ConfigError) : Exit :=
  match e with
  | .unreadable => ⟨1, "Error: IoError"⟩
  | .malformed => ⟨1, "Error: ParseError"⟩
  | .unknownProvider s => ⟨1, "Error: UnknownProvider(" ++ Text.quoted s ++ ")\n"⟩
  | .noSymbols => ⟨1, "Error: NoSymbols\n"⟩

/-- The configuration from the file that is named, if any; `read` gives the text of a file. -/
def loaded (a : Arguments) (read : String → Option String) : Except ConfigError Config :=
  match a.configPath with
  | none => .ok .standard
  | some path =>
    match read path with
    | none => .error .unreadable
    | some text => Config.ofJson text

/-- The configuration with what the environment overrides. -/
def configure (a : Arguments) (read var : String → Option String) : Except Exit Config :=
  match a.loaded read with
  | .error e => .error (exitOf e)
  | .ok c => (c.withOverrides var).mapError exitOf

end Arguments

end CommandLine

end Bourse
