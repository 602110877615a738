import NodeMemory.CommandLine
import NodeMemory.Exporter
import NodeMemory.Text.Terminal
/-!
# The program

What each command does, as a function of what the program finds around it. A
command gives a transcript: what it writes, the events it tells, the files it leaves
and how it ends. `oneshot` makes one pass and gives it out as text or as a report;
`run` serves scrapes until it is interrupted. A command line that is wrong, or a
configuration that is not fit, ends the program before anything is told.
-/

namespace NodeMemory.Program

def version : String := "0.1.0"

def name : String := "node-meminfo-exporter"

/-! ## What can go wrong -/

/-- A fault that ends the program and is told by its own message. -/
inductive ProgramFault where
  /-- The runtime's version is no word. -/
  | noRuntimeVersion
  | pass (fault : PassFault)
  | output (fault : Fault)
  /-- The server's error number and its words. -/
  | server (number : Int) (text : String)
  deriving DecidableEq, Repr

def ProgramFault.message : ProgramFault → String
  | noRuntimeVersion => "list index out of range"
  | pass fault => fault.message
  | output fault => fault.message
  | server number text => "[Errno " ++ toString number ++ "] " ++ text

/-! ## What the program finds -/

/-- What the host says of itself. -/
structure Platform where
  /-- The platform's short name, which decides what there is to read. -/
  name : String
  system : String
  release : String
  machine : String
  /-- The version of the runtime, and more words after it. -/
  runtime : String

structure Surroundings where
  machine : Machine
  clock : Clock
  now : Timestamp
  environment : Environment
  platform : Platform
  /-- The standard output goes to a terminal. -/
  terminal : Bool

/-- What happens while the program serves. -/
inductive Happening where
  /-- From now on the machine is another. -/
  | change (machine : Machine)
  | scrape

/-- How a time of serving ends. -/
inductive ServiceEnd where
  | interrupted
  /-- The server fails, with an error number and its words. -/
  | failed (number : Int) (text : String)
  /-- Anything else goes wrong. -/
  | raised (fault : ProgramFault)
  deriving DecidableEq, Repr

/-- A time of serving. A server that cannot be started fails before anything
happens. -/
structure Service where
  happenings : List Happening
  ending : ServiceEnd

/-! ## What the program does -/

inductive Ending where
  | exit (code : Nat)
  | usage (fault : UsageFault)
  | fault (fault : ProgramFault)
  deriving DecidableEq, Repr

/-- What was served, where, and whether it was served until the interruption. -/
structure Served where
  address : String
  port : Int
  scrapes : List String
  interrupted : Bool
  deriving DecidableEq, Repr

structure Transcript where
  output : String
  events : List Event
  files : FileTree
  served : Option Served
  ending : Ending

/-- A transcript of a program that did nothing but end. -/
def Transcript.ended (files : FileTree) (ending : Ending) : Transcript := ⟨"", [], files, none, ending⟩

/-! ## Configuration -/

def subjects (s : Selection) : List Subject :=
  (if s.machine then [Subject.machine] else []) ++ (if s.nodes then [Subject.nodes] else [])

def config (platform : String) (s : Selection) : Config :=
  { Config.default platform with
    procRoot := .ofText s.procRoot
    systemRoot := .ofText s.systemRoot
    collectors := (subjects s).map Subject.name }

/-! ## Commands -/

def lines (texts : List String) : String := String.join (texts.map fun text => text ++ "\n")

def hint : String := lines ["No command provided. Try: " ++ name ++ " --help"]

def help : String :=
  let flags (c : Command) : String := " ".intercalate (c.flags.map Flag.text)
  lines (["Usage: " ++ name ++ " [--help] COMMAND", "", "OS memory statistics for Prometheus.", "", "Commands:"] ++
    Command.all.map fun c => "  " ++ c.name ++ " " ++ flags c)

/-- The version of the program and what it runs on. -/
def about (s : Surroundings) : Except ProgramFault String :=
  match Text.fields s.platform.runtime with
  | [] => .error .noRuntimeVersion
  | runtime :: _ =>
    .ok (lines [name ++ " v" ++ version, "python=" ++ runtime,
      "os=" ++ s.platform.system ++ " " ++ s.platform.release, "machine=" ++ s.platform.machine,
      "utc_now=" ++ s.now.render])

def payload (e : Exporter) (platform : String) (format : Format) (outcomes : List Outcome) :
    Except PassFault String :=
  match format with
  | .json => .ok ((e.report platform outcomes).render ++ "\n")
  | .text => (e.families outcomes).1.map Exposition.render

/-- The status that the program ends with after a pass. -/
def status (outcomes : List Outcome) : Nat :=
  if outcomes.all Outcome.succeeded then 0 else 1

/-- A text is written to a file, whose directory is made if it is missing: the files
afterwards, and what went wrong. A directory that was made stays without its file. -/
def writeFile (t : FileTree) (p : Path) (text : String) : FileTree × Option Fault :=
  match t.makeDirectories p.parent with
  | (made, some fault) => (made, some fault)
  | (made, none) =>
    match made.write p (Text.Utf8.encode text) with
    | .ok files => (files, none)
    | .error fault => (made, some fault)

/-- The event of a file that was written. Its size is counted in characters. -/
def written (p : Path) (text : String) : Event :=
  ⟨.oneshotWritten, [("path", .shown .path p.text), ("bytes", .integer text.length)]⟩

/-- A text goes to the standard output, and the program ends. Control sequences are
for terminals alone. -/
def print (s : Surroundings) (events : List Event) (text : String) (code : Nat) : Transcript :=
  let shown := if s.terminal then text else Text.withoutControls text
  ⟨shown, events, s.machine.files, none, .exit code⟩

/-- What a pass gave out goes to the standard output or to a file. -/
def deliver (s : Surroundings) (events : List Event) (output text : String) (code : Nat) : Transcript :=
  if output = Setting.standardOutput then print s events text code
  else
    let p := Path.ofText output
    match writeFile s.machine.files p text with
    | (files, none) => ⟨"", events ++ [written p text], files, none, .exit code⟩
    | (files, some fault) => ⟨"", events, files, none, .fault (.output fault)⟩

def oneshot (s : Surroundings) (e : Exporter) (format : Format) (output : String) : Transcript :=
  let p := e.pass s.machine s.clock
  let e := { e with collectors := p.collectors }
  match p.outcomes.bind fun outcomes => (payload e s.platform.name format outcomes).map (outcomes, ·) with
  | .error fault => ⟨"", p.events, s.machine.files, none, .fault (.pass fault)⟩
  | .ok (outcomes, text) => deliver s p.events output text (status outcomes)

/-! ## Serving -/

/-- What was served, the events, the machine at the end, and the fault that ended
the service early. -/
structure Serving where
  scrapes : List String
  events : List Event
  machine : Machine
  fault : Option PassFault

/-- The answer to one scrape and its events, and what comes after them. -/
def Serving.after (scrape : String) (events : List Event) (rest : Serving) : Serving :=
  { rest with scrapes := scrape :: rest.scrapes, events := events ++ rest.events }

/-- What happens, one after another, up to a scrape that has to be given up. -/
def serve (m : Machine) (clock : Clock) (e : Exporter) : List Happening → Serving
  | [] => ⟨[], [], m, none⟩
  | .change m :: rest => serve m clock e rest
  | .scrape :: rest =>
    let s := e.scrape m clock
    match s.families with
    | .error fault => ⟨[], s.events, m, some fault⟩
    | .ok families => (serve m s.clock s.exporter rest).after (Exposition.render families) s.events

def started (c : Config) : Event :=
  ⟨.exporterStart,
    [("listen_address", .string c.listenAddress), ("port", .integer c.port),
      ("collectors", .array (c.enabledNames.map .string)), ("platform", .string c.platform)]⟩

def stopped : Event := ⟨.exporterShutdown, []⟩

/-- The error number of a broken pipe: nobody is left to be told of it. -/
def brokenPipe : Int := 32

/-- How the program ends on a fault that a command lets through. -/
def ProgramFault.ending : ProgramFault → Ending
  | server number text => if number = brokenPipe then .exit 1 else .fault (.server number text)
  | fault => .fault fault

/-- The fault that is let through after serving. An interruption is none. -/
def ServiceEnd.fault? : ServiceEnd → Option ProgramFault
  | interrupted => none
  | failed number text => some (.server number text)
  | raised fault => some fault

/-- How the program ends after serving. Only an interruption is a good end. -/
def ServiceEnd.ending (e : ServiceEnd) : Ending :=
  match e.fault? with
  | none => .exit 0
  | some fault => fault.ending

/-- Serving until the end. Nothing is scraped unless somebody asks for it, and the last event tells
of the end, whatever it was. -/
def run (s : Surroundings) (service : Service) (c : Config) (e : Exporter) : Transcript :=
  let v := serve s.machine s.clock e service.happenings
  let ending :=
    match v.fault with
    | some fault => .fault (.pass fault)
    | none => service.ending.ending
  ⟨"", started c :: v.events ++ [stopped], v.machine.files,
    some ⟨c.listenAddress, c.port, v.scrapes, v.fault.isNone && service.ending = .interrupted⟩, ending⟩

/-! ## The whole program -/

/-- A selection is read by an exporter, if it is fit. -/
def withExporter (s : Surroundings) (c : Config) (go : Exporter → Transcript) : Transcript :=
  match Exporter.ofConfig c version with
  | .error fault => .ended s.machine.files (.usage (.unfit fault))
  | .ok e => go e

def answer (s : Surroundings) (service : Service) : Request → Transcript
  | .help => print s [] help 0
  | .hint => print s [] hint 0
  | .version =>
    match about s with
    | .ok text => print s [] text 0
    | .error fault => .ended s.machine.files (.fault fault)
  | .oneshot selection format output =>
    withExporter s (config s.platform.name selection) fun e => oneshot s e format output
  | .run selection address port =>
    let c := { config s.platform.name selection with listenAddress := address, port := port }
    withExporter s c fun e => run s service c e

/-- What the program does, from its command line on. -/
def transcript (s : Surroundings) (service : Service) (words : List String) : Transcript :=
  match Request.ofWords s.environment words with
  | .error fault => .ended s.machine.files (.usage fault)
  | .ok request => answer s service request

end NodeMemory.Program
