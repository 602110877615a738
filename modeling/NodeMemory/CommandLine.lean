import NodeMemory.Config
import NodeMemory.Text.Integer
import NodeMemory.Text.Quoted
/-!
# The command line

The words after the program's name are options of the program, a command, and the
command's options. An option that takes a value has it after an equals sign or as
the next word, whatever that word is; the last of several options wins. What is not
on the command line may be in the environment, and has a default. `Request.ofWords`
reads all of this.
-/

namespace NodeMemory

inductive Command where
  | version
  | oneshot
  | run
  deriving DecidableEq, Repr

/-- What is said by a text. -/
inductive Setting where
  | procRoot
  | systemRoot
  | format
  | output
  | listenAddress
  | port
  deriving DecidableEq, Repr

namespace Setting

/-- The environment variable that is asked where the command line does not say. -/
def environmentName : Setting → Option String
  | procRoot => some "MEMINFO_EXPORTER_PROCFS"
  | systemRoot => some "MEMINFO_EXPORTER_SYSFS"
  | listenAddress => some "MEMINFO_EXPORTER_LISTEN_ADDRESS"
  | port => some "MEMINFO_EXPORTER_PORT"
  | format => none
  | output => none

/-- The output that stands for the standard output. -/
def standardOutput : String := "-"

def default : Setting → String
  | procRoot => Config.defaultProcRoot
  | systemRoot => Config.defaultSystemRoot
  | format => "text"
  | output => standardOutput
  | listenAddress => Config.defaultListenAddress
  | port => toString Config.defaultPort

end Setting

/-- What an option is for. -/
inductive Flag where
  | help
  /-- A collector is to be enabled or not. -/
  | enable (subject : Subject) (on : Bool)
  /-- The option takes a value. -/
  | setting (s : Setting)
  deriving DecidableEq, Repr

namespace Flag

def text : Flag → String
  | help => "--help"
  | enable .machine true => "--collector-meminfo"
  | enable .machine false => "--no-collector-meminfo"
  | enable .nodes true => "--collector-meminfo-numa"
  | enable .nodes false => "--no-collector-meminfo-numa"
  | setting .procRoot => "--procfs"
  | setting .systemRoot => "--sysfs"
  | setting .format => "--format"
  | setting .output => "--output"
  | setting .listenAddress => "--listen-address"
  | setting .port => "--port"

def takesValue : Flag → Bool
  | setting _ => true
  | _ => false

/-- The options that every reading needs. -/
def ofReading : List Flag :=
  [setting .procRoot, setting .systemRoot, enable .machine true, enable .machine false, enable .nodes true,
    enable .nodes false]

end Flag

namespace Command

def all : List Command := [version, oneshot, run]

def name : Command → String
  | version => "version"
  | oneshot => "oneshot"
  | run => "run"

def ofName? (text : String) : Option Command := all.find? fun c => c.name = text

/-- The options of a command. -/
def flags : Command → List Flag
  | version => [.help]
  | oneshot => .help :: Flag.ofReading ++ [.setting .format, .setting .output]
  | run => .help :: Flag.ofReading ++ [.setting .listenAddress, .setting .port]

end Command

/-! ## Faults -/

/-- How a command line can be wrong. -/
inductive UsageFault where
  | unknownOption (name : String)
  | missingValue (name : String)
  | unwantedValue (name : String)
  | unknownCommand (name : String)
  | extraWords (words : List String)
  | badPort (text : String)
  | badFormat
  | unfit (fault : ConfigFault)
  deriving DecidableEq, Repr

def UsageFault.message : UsageFault → String
  | unknownOption name => "No such option: " ++ name
  | missingValue name => "Option " ++ Text.quote name ++ " requires an argument."
  | unwantedValue name => "Option " ++ Text.quote name ++ " does not take a value."
  | unknownCommand name => "No such command " ++ Text.quote name ++ "."
  | extraWords words => "Got unexpected extra arguments (" ++ " ".intercalate words ++ ")"
  | badPort text => "Invalid value for '--port': " ++ Text.quote text ++ " is no port."
  | badFormat => "--format must be 'text' or 'json'"
  | unfit fault => fault.message

/-! ## Words -/

/-- The options among some words, each with its value, and the other words. -/
structure Words where
  options : List (Flag × String)
  rest : List String
  deriving DecidableEq, Repr

namespace Words

def addOption (flag : Flag) (value : String) (w : Words) : Words :=
  { w with options := (flag, value) :: w.options }

def addWord (word : String) (w : Words) : Words := { w with rest := word :: w.rest }

/-- A word has the form of an option. -/
def isOption (word : String) : Bool :=
  match word.toList with
  | '-' :: _ :: _ => true
  | _ => false

/-- An option's name and the value after its equals sign. -/
def cutValue (word : String) : String × Option String :=
  match word.toList.span (· ≠ '=') with
  | (_, []) => (word, none)
  | (name, _ :: value) => (String.ofList name, some (String.ofList value))

/-- What ends the options. -/
def optionsEnd : String := "--"

/-- Some words are read. Where options and other words may not be mixed, the first
word that is no option ends the options. -/
def read (known : List Flag) (mixed : Bool) : List String → Except UsageFault Words
  | [] => .ok ⟨[], []⟩
  | word :: rest =>
    if word = optionsEnd then .ok ⟨[], rest⟩
    else if isOption word then
      let (name, value) := cutValue word
      match known.find? fun flag => flag.text = name with
      | none => .error (.unknownOption name)
      | some flag =>
        match flag.takesValue, value, rest with
        | true, some value, rest => (read known mixed rest).map (addOption flag value)
        | true, none, value :: rest => (read known mixed rest).map (addOption flag value)
        | true, none, [] => .error (.missingValue name)
        | false, some _, _ => .error (.unwantedValue name)
        | false, none, rest => (read known mixed rest).map (addOption flag "")
    else if mixed then (read known mixed rest).map (addWord word)
    else .ok ⟨[], word :: rest⟩

def has (w : Words) (flag : Flag) : Bool := w.options.any fun o => o.1 = flag

/-- The last value of a setting. -/
def value? (w : Words) (s : Setting) : Option String := w.options.reverse.lookup (.setting s)

/-- The last word on whether a collector is enabled. -/
def enabled? (w : Words) (subject : Subject) : Option Bool :=
  w.options.reverse.findSome? fun (flag, _) =>
    match flag with
    | .enable s on => if s = subject then some on else none
    | _ => none

end Words

/-! ## Requests -/

inductive Format where
  | text
  | json
  deriving DecidableEq, Repr

def Format.ofName? (text : String) : Option Format :=
  if text = "text" then some .text else if text = "json" then some .json else none

/-- What is to be read, and where. -/
structure Selection where
  procRoot : String
  systemRoot : String
  machine : Bool
  nodes : Bool
  deriving DecidableEq, Repr

/-- What the program is asked to do. -/
inductive Request where
  | help
  /-- There was no command. -/
  | hint
  | version
  | oneshot (selection : Selection) (format : Format) (output : String)
  | run (selection : Selection) (listenAddress : String) (port : Int)
  deriving DecidableEq, Repr

abbrev Environment := List (String × String)

namespace Request

/-- A setting: from the command line, from a variable that is not empty, or its
default. -/
def setting (env : Environment) (w : Words) (s : Setting) : String :=
  match w.value? s with
  | some value => value
  | none =>
    match s.environmentName.bind fun name => List.lookup name env with
    | some value => if value.isEmpty then s.default else value
    | none => s.default

def selection (env : Environment) (w : Words) : Selection where
  procRoot := setting env w .procRoot
  systemRoot := setting env w .systemRoot
  machine := (w.enabled? .machine).getD true
  nodes := (w.enabled? .nodes).getD false

/-- The highest port. -/
def portLimit : Int := 65535

def readPort (text : String) : Except UsageFault Int :=
  match Text.integer? text with
  | some n => if 1 ≤ n ∧ n ≤ portLimit then .ok n else .error (.badPort text)
  | none => .error (.badPort text)

def readFormat (text : String) : Except UsageFault Format :=
  match Format.ofName? text with
  | some format => .ok format
  | none => .error .badFormat

/-- No words are left that belong to no option. -/
def noMoreWords (w : Words) : Except UsageFault Unit :=
  if w.rest.isEmpty then .ok () else .error (.extraWords w.rest)

/-- The request of a command. A port is looked at before words that do not belong
there, a format after them. -/
def ofCommand (env : Environment) (c : Command) (w : Words) : Except UsageFault Request :=
  if w.has .help then .ok .help
  else
    match c with
    | .version => do
      noMoreWords w
      return .version
    | .oneshot => do
      noMoreWords w
      let format ← readFormat (setting env w .format)
      return .oneshot (selection env w) format (setting env w .output)
    | .run => do
      let port ← readPort (setting env w .port)
      noMoreWords w
      return .run (selection env w) (setting env w .listenAddress) port

/-- The request of a command line. -/
def ofWords (env : Environment) (words : List String) : Except UsageFault Request :=
  match Words.read [.help] false words with
  | .error fault => .error fault
  | .ok w =>
    if w.has .help then .ok .help
    else
      match w.rest with
      | [] => .ok .hint
      | name :: rest =>
        match Command.ofName? name with
        | none => .error (.unknownCommand name)
        | some c =>
          match Words.read c.flags true rest with
          | .error fault => .error fault
          | .ok w => ofCommand env c w

end Request

end NodeMemory
