import NodeMemory.Json
import NodeMemory.Keyed
import NodeMemory.Timestamp
/-!
# Events

What happens to the exporter is told in events, one line of JSON each. The kind of
an event fixes its level. Whatever fields it is given, an event carries its own
kind, level, time and version, and no long message.
-/

namespace NodeMemory

inductive EventKind where
  | exporterStart
  | exporterShutdown
  | collectorSucceeded
  | collectorFailed
  | scrapeCompleted
  | oneshotWritten
  deriving DecidableEq, Repr

namespace EventKind

def name : EventKind → String
  | exporterStart => "exporter_start"
  | exporterShutdown => "exporter_shutdown"
  | collectorSucceeded => "collector_succeeded"
  | collectorFailed => "collector_failed"
  | scrapeCompleted => "scrape_completed"
  | oneshotWritten => "oneshot_written"

def level : EventKind → String
  | exporterStart => "info"
  | exporterShutdown => "info"
  | collectorSucceeded => "debug"
  | collectorFailed => "error"
  | scrapeCompleted => "debug"
  | oneshotWritten => "info"

def all : List EventKind :=
  [exporterStart, exporterShutdown, collectorSucceeded, collectorFailed, scrapeCompleted, oneshotWritten]

def ofName? (text : String) : Option EventKind := all.find? fun k => k.name = text

/-- The message about a name that no kind of event has. -/
def unknown (text : String) : String := "invalid event_type: " ++ text

end EventKind

structure Event where
  kind : EventKind
  fields : List (String × Json)

namespace Event

/-- The length up to which a message is kept. -/
def messageLimit : Int := 200

/-- A text that is longer than a limit keeps its beginning, and says how much is
missing. A limit below zero leaves out that many characters at the end. -/
def truncate (limit : Int) (text : String) : String :=
  let cs := text.toList
  let size : Int := cs.length
  if size ≤ limit then text
  else
    let kept := if limit < 0 then size + limit else limit
    String.ofList (cs.take kept.toNat) ++ "...[truncated " ++ toString (size - limit) ++ " chars]"

/-- A field as the event carries it: a message is kept short. -/
def shorten (name : String) : Json → Json
  | .string s => .string (if name = "message" then truncate messageLimit s else s)
  | value => value

/-- All members of the event's line. The event's own replace fields of the same
names. -/
def members (e : Event) (version : String) (now : Timestamp) : List (String × Json) :=
  let given := e.fields.map fun (name, value) => (name, shorten name value)
  [("event_type", Json.string e.kind.name), ("level", .string e.kind.level), ("utc_now", .string now.render),
    ("exporter_version", .string version)].foldl (fun l m => Entries.insert m.1 m.2 l) given

/-- The line of an event, without the line feed that ends it. -/
def line (e : Event) (version : String) (now : Timestamp) : String :=
  (Json.object (e.members version now)).render

/-- What is written for a type of event: its line and the line feed, or nothing but a
message where there is no such type. -/
def emit (type : String) (fields : List (String × Json)) (version : String) (now : Timestamp) : Except String String :=
  match EventKind.ofName? type with
  | none => .error (EventKind.unknown type)
  | some kind => .ok ((Event.mk kind fields).line version now ++ "\n")

end Event

end NodeMemory
