import MiniJava.Greeting.Profile

/-!
# Writing a greeting

A sink takes a limited number of bytes in all. A write that does not fit fills what room there is
and fails, and nothing is written after a failure. The sink is flushed once all lines are written.
-/

namespace MiniJava.Greeting

inductive SinkError where
  | pipeClosed
deriving DecidableEq, Repr

def SinkError.message : SinkError → String
  | pipeClosed => "IO error: pipe closed"

structure Sink where
  room : Nat
  written : List UInt8
  flushed : Bool
deriving DecidableEq, Repr, Inhabited

namespace Sink

def ofCapacity (capacity : Nat) : Sink := ⟨capacity, [], false⟩

abbrev Result := Except SinkError Unit × Sink

def write (sink : Sink) (bytes : List UInt8) : Result :=
  let taken := bytes.take sink.room
  let after : Sink :=
    { sink with room := sink.room - taken.length, written := sink.written ++ taken }
  (if bytes.length ≤ sink.room then .ok () else .error .pipeClosed, after)

def flush (sink : Sink) : Result := (.ok (), { sink with flushed := true })

/-- Continues behind a write that did not fail. -/
def andThen (result : Result) (next : Sink → Result) : Result :=
  match result with
  | (.ok (), sink) => next sink
  | failed => failed

def writeLines (sink : Sink) : List String → Result
  | [] => sink.flush
  | line :: rest =>
    andThen (sink.write line.toUTF8.toList) fun sink =>
      andThen (sink.write "\n".toUTF8.toList) fun sink => sink.writeLines rest

end Sink

def Profile.writeTo (profile : Profile) (sink : Sink) : Sink.Result :=
  sink.writeLines profile.lines

end MiniJava.Greeting
