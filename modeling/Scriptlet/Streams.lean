/-!
# Streams

What a program reads and writes.  A program can ask its streams for a line, hand them texts for
its two outputs, and hand code to the host behind them.  Whatever it asks may change the state
of the streams, and how they answer depends on that state alone (`Terminal`).

Buffered streams are an instance.  Their state is the lines that wait to be read and the texts
that have been written (`Streams`); they are connected to a device, which says which of these
ways are broken and answers for the host.
-/

namespace Scriptlet

/-- What can be asked of streams whose state is of type `σ`: each answer, with the state that is
left. -/
structure Terminal (σ : Type) where
  /-- The next line, none at the end of the input, or why lines cannot be read. -/
  readLine : σ → Except String (Option String) × σ
  /-- Writes a text as output, or says why output cannot be written. -/
  writeOut : String → σ → Except String Unit × σ
  /-- Writes a text as errors, or says why errors cannot be written. -/
  writeErr : String → σ → Except String Unit × σ
  /-- What the host answers to code handed to it, or why it refuses. -/
  evalHost : String → σ → Except String String × σ

/-! ### Buffered streams -/

/-- The state of buffered streams. -/
structure Streams where
  /-- The lines that have not been read. -/
  input : List String
  /-- What has been written as output. -/
  out : String
  /-- What has been written as errors. -/
  err : String

/-- Streams with the given lines to read. -/
def Streams.ofLines (lines : List String) : Streams :=
  ⟨lines, "", ""⟩

/-- What buffered streams are connected to. -/
structure Device where
  /-- Why output cannot be written, none if it can. -/
  outFault : Option String
  /-- Why errors cannot be written, none if they can. -/
  errFault : Option String
  /-- Why lines cannot be read, none if they can. -/
  inputFault : Option String
  /-- What the host answers to code handed to it, or why it refuses. -/
  host : String → Except String String

namespace Device

/-- A device that works and has no host that evaluates code. -/
def standard : Device where
  outFault := none
  errFault := none
  inputFault := none
  host := fun _ => .error "no host evaluator is available"

/-- What can be asked of buffered streams that are connected to a device. -/
def terminal (device : Device) : Terminal Streams where
  readLine s :=
    match device.inputFault, s.input with
    | some reason, _ => (.error reason, s)
    | none, [] => (.ok none, s)
    | none, line :: rest => (.ok (some line), { s with input := rest })
  writeOut text s :=
    match device.outFault with
    | some reason => (.error reason, s)
    | none => (.ok (), { s with out := s.out ++ text })
  writeErr text s :=
    match device.errFault with
    | some reason => (.error reason, s)
    | none => (.ok (), { s with err := s.err ++ text })
  evalHost code s := (device.host code, s)

instance : Coe Device (Terminal Streams) := ⟨terminal⟩

end Device

end Scriptlet
