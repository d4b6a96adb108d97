import NmLogging.Framework.Monitor
import NmLogging.Framework.Dict
import NmLogging.Serialise

/-!
# Streams

The shared per-file state of `sinks/_streams.py`: the registry of states by file
identity, and `write_completely`. What a sink does with its file is a program
over the operations of `StreamOp`, which act on the sink that runs it and on the
state that it shares with every other sink on its file; what the operating
system answers is left to a semantics.
-/

namespace NmLogging

/-! ## The registry -/

/-- The kind of a stream, fixed at its first registration. -/
inductive StreamKind where
  | operational
  | audit
  deriving DecidableEq

/-- `_StreamState`; its lock is the one of `lockSig`. -/
structure StreamState where
  latched : Bool
  streamKind : StreamKind
  deriving DecidableEq

/-- `_StreamState.__init__`. -/
def StreamState.init (kind : StreamKind) : StreamState := ⟨false, kind⟩

/-- `(st_dev, st_ino)`. -/
abbrev Identity := Nat × Nat

/-- `register`: the registry afterwards and the shared state. -/
def register (streams : Dict Identity StreamState) (id : Identity) (kind : StreamKind) :
    Except PyError (Dict Identity StreamState × StreamState) :=
  match streams.get? id with
  | none => .ok (streams.set id (.init kind), .init kind)
  | some state =>
    if state.streamKind ≠ kind then
      .error (configurationError
        "a sink of a different kind is already registered for this file identity")
    else .ok (streams, state)

/-! ## Operations -/

/-- How a call of the operating system ends: `raised` is an exception that is
no `OSError`. -/
inductive OsResult (α : Type) where
  | returned (a : α)
  | osError
  | raised (e : PyError)

/-- What a sink does with itself, its stream's state and its descriptor. -/
inductive StreamOp where
  | isClosed
  | setClosed
  | isLatched
  | setLatched
  | osWrite (data : Bytes)
  | osFsync
  | osClose

def streamSig : Sig where
  Op := StreamOp
  Ret
    | .isClosed => Bool
    | .isLatched => Bool
    | .setClosed => Unit
    | .setLatched => Unit
    | .osWrite _ => OsResult Int
    | .osFsync => OsResult Unit
    | .osClose => OsResult Unit

/-- What a sink runs. -/
abbrev SinkProg := Prog (lockSig streamSig) PyError

def isClosed : SinkProg Bool := Prog.act (S := streamSig) .isClosed
def setClosed : SinkProg Unit := Prog.act (S := streamSig) .setClosed
def isLatched : SinkProg Bool := Prog.act (S := streamSig) .isLatched
def setLatched : SinkProg Unit := Prog.act (S := streamSig) .setLatched
def osWrite (data : Bytes) : SinkProg (OsResult Int) := Prog.act (S := streamSig) (.osWrite data)
def osFsync : SinkProg (OsResult Unit) := Prog.act (S := streamSig) .osFsync
def osClose : SinkProg (OsResult Unit) := Prog.act (S := streamSig) .osClose

/-! ## write_completely -/

/-- What a write attempt came to. -/
inductive WriteStatus where
  | WRITE_COMPLETE
  | WRITE_PARTIAL
  | WRITE_NOTHING
  | WRITE_SYNC_FAILED
  deriving DecidableEq

/-- The completion loop, from `written` bytes. A positive return is progress, so
as many rounds as there are bytes are enough. -/
def writeLoop (data : Bytes) : Nat → Nat → SinkProg Nat
  | 0, written => .ret written
  | rounds + 1, written =>
    if written < data.length then do
      match ← osWrite (data.drop written) with
      | .returned n => if n ≤ 0 then .ret written else writeLoop data rounds (written + n.toNat)
      | .osError => .ret written
      | .raised e => .throw e
    else .ret written

/-- A round of the loop. -/
theorem writeLoop_round {data : Bytes} {rounds written : Nat} (h : written < data.length) :
    writeLoop data (rounds + 1) written = osWrite (data.drop written) >>= fun r =>
      match r with
      | .returned n => if n ≤ 0 then .ret written else writeLoop data rounds (written + n.toNat)
      | .osError => .ret written
      | .raised e => .throw e := by
  rw [writeLoop, if_pos h]

/-- `write_completely`. -/
def writeCompletely (data : Bytes) (doFsync : Bool) : SinkProg WriteStatus := do
  let written ← writeLoop data data.length 0
  if written ≠ data.length then
    if written > 0 then return .WRITE_PARTIAL else return .WRITE_NOTHING
  else if doFsync then
    match ← osFsync with
    | .returned _ => return .WRITE_COMPLETE
    | .osError => return .WRITE_SYNC_FAILED
    | .raised e => .throw e
  else return .WRITE_COMPLETE

end NmLogging
