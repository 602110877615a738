import NodeMemory.Program
import Std.Async.Signal
import Std.Async.TCP
import Std.Time
/-!
# The executable

The outermost layer: it looks at the files, the environment, the clock and the host,
lets the program say what is to be done, and does it. The native library cannot be
reached from here, so the platform is always one with tables.
-/

namespace NodeMemory.Main

open Std.Async

/-! ## Looking around -/

/-- The text of a location, from the root. -/
def textOf (location : List String) : String := "/" ++ "/".intercalate location

/-- What the system has at a location is put into a tree. -/
def loadAt (t : FileTree) (location : List String) : IO FileTree := do
  let text := textOf location
  try
    if ← (← IO.FS.realPath text).isDir then return t.set location .empty
    let bytes ← IO.FS.readBinFile text
    return t.set location (.file bytes.toList)
  catch _ => return t

/-- What the system has along a path. -/
def load (t : FileTree) (p : Path) : IO FileTree := do
  let mut t := t
  let mut here := t.start p
  for name in p.names do
    if name = ".." then here := here.dropLast
    else
      here := here ++ [name]
      if (t.entry? here).isNone then t ← loadAt t here
  return t

/-- The names in a directory of the system. -/
def namesIn (t : FileTree) (p : Path) : IO (List String) := do
  match t.locate p with
  | .error _ => return []
  | .ok location =>
    try
      return (← (← IO.FS.realPath (textOf location)).readDir).toList.map fun entry => entry.fileName
    catch _ => return []

/-- What the system has where a pattern leads, and the paths found. -/
def loadPattern (t : FileTree) (pattern : Path) : IO (FileTree × List Path) := do
  let mut t := t
  let mut found := [{ pattern with names := [] }]
  for name in pattern.names do
    let mut next := []
    for p in found do
      let names ← if Glob.isPattern name then namesIn t p else pure [name]
      for n in names do
        if n = name || Glob.meets name n then
          t ← load t (p.child n)
          next := next ++ [p.child n]
    found := next
  return (t, found)

/-- What a source reads. -/
def loadSource (t : FileTree) : Source → IO FileTree
  | .table file => load t file
  | .native _ => return t
  | .nodes root => do
    let (t, found) ← loadPattern t (Numa.pattern root)
    let mut t := t
    for p in found do
      t ← load t (p.child "meminfo")
      t ← load t (p.child "numastat")
    return t

/-- The current directory, and nothing else. -/
def emptyTree : IO FileTree := do
  return .empty (Path.ofText (← IO.currentDir).toString).names

/-- The steady clock, in seconds. -/
def seconds : IO Binary64 := do
  return .ofDecimal false (← IO.monoNanosNow) (-9)

/-- What the collectors read now, and how long the system took to give it for each. -/
def look (t : FileTree) (collectors : List Collector) : IO (Machine × Clock) := do
  let mut t := t
  let mut readings := []
  for c in collectors do
    let start ← seconds
    t ← loadSource t c.source
    readings := readings ++ [start, ← seconds]
  return (⟨t, none⟩, .ofList readings)

def now : IO Timestamp := do
  let moment := (Std.Time.DateTime.ofTimestampWithZone (← Std.Time.Timestamp.now) .UTC).toPlainDateTime
  return ⟨moment.date.year.toInt.toNat, moment.date.month.val.toNat, moment.date.day.val.toNat,
    moment.time.hour.val.toNat, moment.time.minute.val.toNat, moment.time.second.val.toNat,
    moment.time.nanosecond.val.toNat / 1000⟩

/-- The first line of a file of the system, if it is there. -/
def firstLine (file fallback : String) : IO String := do
  try
    return Text.strip (← IO.FS.readFile file)
  catch _ => return fallback

def platform : IO Program.Platform := do
  return {
    name := "linux"
    system := ← firstLine "/proc/sys/kernel/ostype" "Linux"
    release := ← firstLine "/proc/sys/kernel/osrelease" ""
    machine := ← firstLine "/proc/sys/kernel/arch" ""
    runtime := "4.33.0" }

/-- The variables that settings are taken from. -/
def environment : IO Environment := do
  let mut found := []
  for s in [Setting.procRoot, .systemRoot, .listenAddress, .port] do
    if let some name := s.environmentName then
      if let some value ← IO.getEnv name then found := found ++ [(name, value)]
  return found

/-! ## Doing -/

def tell (events : List Event) : IO Unit := do
  for event in events do
    IO.eprintln (event.line Program.version (← now))

/-- The files that a transcript leaves are written. -/
def keep (before after : FileTree) : IO Unit := do
  for (location, entry) in after.changesSince before do
    match entry with
    | .directory _ => IO.FS.createDirAll (textOf location)
    | .file bytes => IO.FS.writeBinFile (textOf location) ⟨bytes.toArray⟩

/-- The end of a program: its status, after what there is to say about it. -/
def finish : Program.Ending → IO UInt32
  | .exit code => return code.toUInt32
  | .usage fault => do
    IO.eprintln ("Error: " ++ fault.message)
    return 2
  | .fault fault => do
    IO.eprintln ("Error: " ++ fault.message)
    return 1

def perform (before : FileTree) (t : Program.Transcript) : IO UInt32 := do
  keep before t.files
  IO.print t.output
  tell t.events
  finish t.ending

/-! ## Serving -/

/-- An answer with a text in it. -/
def respond (status text : String) : ByteArray :=
  let body := text.toUTF8
  ("HTTP/1.0 " ++ status ++ "\r\nContent-Type: text/plain; version=0.0.4; charset=utf-8\r\nContent-Length: " ++
    toString body.size ++ "\r\nConnection: close\r\n\r\n").toUTF8 ++ body

/-- One scrape, with what the system has now. -/
def scrape (state : IO.Ref Exporter) : IO ByteArray := do
  let e ← state.get
  let (machine, clock) ← look (← emptyTree) e.collectors
  let s := e.scrape machine clock
  state.set s.exporter
  tell s.events
  match s.families with
  | .ok families => return respond "200 OK" (Exposition.render families)
  | .error fault => return respond "500 Internal Server Error" fault.message

/-- Whoever asks is answered with a scrape. -/
def answer (state : IO.Ref Exporter) (client : TCP.Socket.Client) : Async Unit := do
  try
    match ← client.recv? 65536 with
    | none => return ()
    | some _ =>
      client.send (← scrape state)
      client.shutdown
  catch _ => return ()

/-- Clients are answered one after another until the interruption. -/
partial def answerAll (state : IO.Ref Exporter) (server : TCP.Socket.Server) (interrupt : Signal.Waiter) :
    Async Unit := do
  let goOn ← Selectable.one #[
    .case server.acceptSelector fun client => do
      answer state client
      return true,
    .case interrupt.selector fun _ => return false]
  if goOn then answerAll state server interrupt

/-- The server at an address, until the interruption. -/
def listen (e : Exporter) (address : Std.Net.IPv4Addr) (port : UInt16) : IO Unit := do
  let interrupt ← Signal.Waiter.mk .sigint true
  let server ← TCP.Socket.Server.mk
  server.bind (.v4 ⟨address, port⟩)
  server.listen 128
  (answerAll (← IO.mkRef e) server interrupt).block

def run (c : Config) (e : Exporter) : IO UInt32 := do
  tell [Program.started c]
  let fault ← try
    match Std.Net.IPv4Addr.ofString c.listenAddress with
    | none => pure (some ("no address to listen on: " ++ c.listenAddress))
    | some address =>
      listen e address c.port.toNat.toUInt16
      pure none
  catch fault => pure (some (toString fault))
  tell [Program.stopped]
  match fault with
  | none => finish Program.ServiceEnd.interrupted.ending
  | some text => do
    IO.eprintln ("Error: " ++ text)
    return 1

/-- One pass: the sources and the way to the output are looked at before it. -/
def oneshot (s : Program.Surroundings) (c : Config) (request : Request) (output : String) : IO UInt32 := do
  let collectors := ((Exporter.ofConfig c Program.version).toOption.map Exporter.collectors).getD []
  let before ← load s.machine.files (.ofText output)
  let (machine, clock) ← look before collectors
  perform machine.files (Program.answer { s with machine := machine, clock := clock } ⟨[], .interrupted⟩ request)

def start (words : List String) : IO UInt32 := do
  let s : Program.Surroundings :=
    ⟨⟨← emptyTree, none⟩, .ofList [], ← now, ← environment, ← platform, ← (← IO.getStdout).isTty⟩
  match Request.ofWords s.environment words with
  | .error fault => finish (.usage fault)
  | .ok (.run selection address port) =>
    let c := { Program.config s.platform.name selection with listenAddress := address, port := port }
    match Exporter.ofConfig c Program.version with
    | .error fault => finish (.usage (.unfit fault))
    | .ok e => run c e
  | .ok (.oneshot selection format output) =>
    oneshot s (Program.config s.platform.name selection) (.oneshot selection format output) output
  | .ok request => perform s.machine.files (Program.answer s ⟨[], .interrupted⟩ request)

end NodeMemory.Main

/-- The command line of the exporter. -/
def main (words : List String) : IO UInt32 := NodeMemory.Main.start words
