import NodeMemory.Native
/-!
# The native source

A source of native figures asks the library once for its host and keeps it. While
there is no library, a reading fails without a call, and the next one tries again.
-/

namespace NodeMemory.Native

/-- A library in which nothing was set: every counter is zero and no control is
known. -/
def Library.blank : Library := ⟨1, 0, [], 0, 4096, []⟩

/-- A source, and the host that it has been given. -/
structure Source where
  host : Option Nat
  deriving DecidableEq, Repr

namespace Source

/-- A source that has not asked for its host. -/
def fresh : Source := ⟨none⟩

/-- The host of a reading, the library that answers it, and the calls made to find
the host. A host once given stays, and what is set in the library later is what it
answers from. -/
def host? (s : Source) : Option Library → Option (Nat × Library × List Call)
  | some library =>
    match s.host with
    | some host => some (host, library, [])
    | none => some (library.host, library, [.hostSelf])
  | none => s.host.map fun host => (host, .blank, [])

/-- The figures, the calls made for them, and the source afterwards. -/
def read (s : Source) (library : Option Library) :
    Except Fault (Keyed Binary64) × List Call × Source :=
  match s.host? library with
  | none => (.error .libraryMissing, [], s)
  | some (host, library, found) =>
    let (figures, calls) := (Host.ofLibrary library host).read
    (figures, found ++ calls, ⟨some host⟩)

end Source

end NodeMemory.Native
