import LoadBench.Environment
import LoadBench.Flags
import LoadBench.Text.Plain

/-!
The help. The short one has a line for each flag, the long one a paragraph. Both tell what the
environment says at the moment, and the defaults.
-/

namespace LoadBench.Flags

/-- What a setting is, for a reader: a summary and further paragraphs. -/
structure Description where
  summary : String
  more : List String := []

/-- What each setting is. -/
def describe : Setting → Description
  | .addr =>
      { summary := "Backend address"
        more := ["Either `host:port` or a full `redis://` / `rediss://` URL."] }
  | .iterations => { summary := "Number of operations issued by every phase" }
  | .numWorkers =>
      { summary :=
          "Number of workers in the pool. Each worker holds its own connection for the whole run" }
  | .queueCapacity =>
      { summary := "Capacity of the job queue between the driver and the workers"
        more :=
          ["When the queue is full the driver waits, so lower values apply backpressure sooner."] }
  | .phases => { summary := "Phases to run, in order (comma separated)" }
  | .valueSuffix => { summary := "Tail appended to every generated value" }
  | .format => { summary := "Report format written to stdout" }

/-- What a kind of phase does, for a reader. -/
def describeKind : PhaseKind → String
  | .pooledPut =>
      "`tikv.put pkey-\x7bi\x7d pvaluedata-\x7bi\x7d-\x7bsuffix\x7d` through the worker pool"
  | .pooledGet => "`tikv.cget pkey-\x7bi\x7d` through the worker pool"
  | .directSet =>
      "`set key-\x7bi\x7d valuedata-\x7bi\x7d-\x7bsuffix\x7d` on a single connection"
  | .directGet => "`get key-\x7bi\x7d` on a single connection"

/-- What a format looks like, for a reader. -/
def describeFormat : Format → String
  | .text => "`Run <command> <n>` / `Time: <elapsed>` lines"
  | .json => "One JSON object per phase"

/-- The values that may be given, with what they mean. -/
def describeChoices : Setting → List (String × String)
  | .phases => PhaseKind.all.map fun kind => (kind.name, describeKind kind)
  | .format => Format.all.map fun format => (format.name, describeFormat format)
  | _ => []

/-- What the environment says about a setting. -/
def variableNote (env : Environment) (s : Setting) : String :=
  "[env: " ++ s.envName ++ "=" ++ ((env.get? s.envName).getD []).lenientText ++ "]"

/-- The default of a setting. Several phases are listed with blanks. -/
def defaultNote (s : Setting) : String :=
  let value := match s with
    | .phases => String.intercalate " " (Arguments.default.phases.map (·.name))
    | s => Arguments.default.value s
  "[default: " ++ value ++ "]"

/-- The values that may be given, in brackets. -/
def choicesNote (s : Setting) : List String :=
  match s.choices with
  | [] => []
  | choices => ["[possible values: " ++ String.intercalate ", " choices ++ "]"]

/-- The flags of a setting, or of a switch, at the beginning of its entry. -/
def entryHead (short : Option Char) (long : String) : String :=
  match short with
  | some c => "  " ++ Text.bold ("-" ++ String.singleton c) ++ ", " ++ Text.bold long ++ "\n"
  | none => "      " ++ Text.bold long ++ "\n"

/-- How far the text of an entry is indented. -/
def indent : String := "          "

/-- A text with every line indented. -/
def indented (s : String) : String :=
  indent ++ String.ofList (s.toList.flatMap fun c =>
    if c = '\n' then '\n' :: indent.toList else [c])

def usageSection : String := "Usage: kvpress [OPTIONS]\n\nOptions:\n"

/-- The entry of a setting in the short help. -/
def shortEntry (env : Environment) (s : Setting) : String :=
  let notes := [(describe s).summary, variableNote env s, defaultNote s] ++ choicesNote s
  entryHead s.short? s.usage ++ indented (String.intercalate " " notes) ++ "\n"

def shortHelp (env : Environment) : String :=
  Text.plain <|
    "Throughput harness for Redis-protocol key/value services\n\n" ++ usageSection ++
      String.join (Setting.all.map (shortEntry env)) ++
      entryHead (some 'h') "--help" ++ indented "Print help (see more with '--help')" ++ "\n" ++
      entryHead (some 'V') "--version" ++ indented "Print version" ++ "\n"

/-- The paragraphs of a setting in the long help, up to what may be given. -/
def longParagraphs (s : Setting) : List String :=
  let d := describe s
  [d.summary ++ "."] ++ d.more ++ ["Environment variable: `" ++ s.envName ++ "`"]

/-- The list of what may be given in the long help. -/
def longChoices (s : Setting) : String :=
  match describeChoices s with
  | [] => ""
  | choices =>
      "\n" ++ indent ++ "Possible values:\n" ++
        String.join (choices.map fun (name, meaning) =>
          indent ++ "- " ++ name ++ ": " ++ meaning ++ "\n")

/-- The entry of a setting in the long help. -/
def longEntry (env : Environment) (s : Setting) : String :=
  entryHead s.short? s.usage ++
    indented (String.intercalate "\n\n" (longParagraphs s)) ++ "\n" ++ longChoices s ++
    indent ++ "\n" ++ indented (variableNote env s ++ "\n" ++ defaultNote s) ++ "\n\n"

def longHelp (env : Environment) : String :=
  Text.plain <|
    "Runtime configuration for the `kvpress` binary.\n\n" ++
      "These settings control the size of the workload, the concurrency of the pooled phases, " ++
      "and how results are printed. All values are parsed from CLI arguments or environment " ++
      "variables (a `.env` file is honored), with defaults matching the reference harness: " ++
      "40 000 operations per phase, 50 workers, and a queue of 100 jobs.\n\n" ++ usageSection ++
      String.join (Setting.all.map (longEntry env)) ++
      entryHead (some 'h') "--help" ++ indented "Print help (see a summary with '-h')" ++ "\n\n" ++
      entryHead (some 'V') "--version" ++ indented "Print version" ++ "\n"

def version : String := "kvpress 0.1.0\n"

end LoadBench.Flags
