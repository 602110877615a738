import NodeMemory.Path
import NodeMemory.Sorting
import NodeMemory.Subject
/-!
# Configuration

Where the tables are, what the metrics are called, which collectors are enabled and
where the exporter listens. A configuration is fit if every enabled collector is
known and the platform has what it reads (`subjects`).
-/

namespace NodeMemory

structure Config where
  /-- The directory of the machine's memory table. -/
  procRoot : Path
  /-- The directory below which the node directories are. -/
  systemRoot : Path
  /-- What the names of all metrics begin with. -/
  scope : String
  platform : String
  /-- The names of the enabled collectors. -/
  collectors : List String
  listenAddress : String
  port : Int

inductive ConfigFault where
  | unknownCollectors (names : List String)
  | unsupported (platform : String) (names : List String)
  deriving DecidableEq, Repr

def ConfigFault.message : ConfigFault → String
  | .unknownCollectors names => "unknown collector: " ++ ", ".intercalate names
  | .unsupported platform names =>
    "collector not supported on " ++ platform ++ ": " ++ ", ".intercalate names

namespace Config

def defaultProcRoot : String := "/proc"

def defaultSystemRoot : String := "/sys"

def defaultScope : String := "node"

def defaultListenAddress : String := "0.0.0.0"

def defaultPort : Int := 9100

/-- The configuration of a platform where nothing else is said. -/
def default (platform : String) : Config where
  procRoot := .ofText defaultProcRoot
  systemRoot := .ofText defaultSystemRoot
  scope := defaultScope
  platform := platform
  collectors := [Subject.machine.name]
  listenAddress := defaultListenAddress
  port := defaultPort

/-- A file in the directory of the machine's tables. -/
def procFile (c : Config) (file : Path) : Path := c.procRoot.join file

def memoryTable (c : Config) : Path := c.procFile (.ofText "meminfo")

/-- The platform whose figures come from the native library. -/
def nativePlatform : String := "darwin"

/-- The names of the platforms that have node directories begin with this. -/
def nodePlatforms : String := "linux"

def hasNodes (c : Config) : Bool := nodePlatforms.toList.isPrefixOf c.platform.toList

def supports (c : Config) : Subject → Bool
  | .machine => true
  | .nodes => c.hasNodes

/-- The names of the enabled collectors, each once, in ascending order. -/
def enabledNames (c : Config) : List String := Sorting.sortTexts c.collectors.eraseDups

def isEnabled (c : Config) (s : Subject) : Bool := c.collectors.contains s.name

/-- The subjects of the enabled collectors, in the order of a pass. -/
def subjects (c : Config) : Except ConfigFault (List Subject) :=
  let unknown := c.enabledNames.filter fun name => (Subject.ofName? name).isNone
  let enabled := Subject.all.filter c.isEnabled
  let unsupported := enabled.filter fun s => !c.supports s
  if !unknown.isEmpty then .error (.unknownCollectors unknown)
  else if !unsupported.isEmpty then .error (.unsupported c.platform (unsupported.map Subject.name))
  else .ok enabled

end Config

end NodeMemory
