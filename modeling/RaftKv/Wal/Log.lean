import RaftKv.Wal.Record

/-! # The write-ahead log as a sequence of records

`save_*` puts a record in the write buffer and `sync` moves the buffer to the
file. Whether a flush succeeds is the storage device's choice, given here as a
script. A failed flush may leave any number of the buffered records in the file;
the rest, of which the last may be torn, are `lost`. The handle is unusable
afterwards.
-/

namespace RaftKv

/-- Outcome of one `fwrite`, `fflush`, `fsync` sequence. -/
inductive SyncResult where
  | ok
  | failed (kept : Nat)
  deriving DecidableEq, Repr

structure Wal (D : Type) where
  file : List (Record D) := []
  buffer : List (Record D) := []
  failed : Bool := false
  lost : List (Record D) := []
  device : List SyncResult := []
  deriving DecidableEq, Repr

namespace Wal

variable {D : Type}

/-- `append_record` for a payload within its 24-bit length. A longer one makes it throw;
`RaftKv.Node.Oversize` has the handlers with that exception. -/
def appendRecord (w : Wal D) (record : Record D) : Wal D :=
  { w with buffer := w.buffer ++ [record] }

def saveHardState (w : Wal D) (hs : HardState) : Wal D :=
  if hs.isEmpty then w else w.appendRecord (.hardState hs)

def saveEntry (w : Wal D) (e : Entry) : Wal D := w.appendRecord (.entry e)

def saveSnapshot [Blob D] (w : Wal D) (snap : SnapshotMeta D) : Wal D :=
  if snap.isEmpty then w else w.appendRecord (.snapshot snap)

/-- The device's next outcome; an exhausted script goes on succeeding. -/
def outcome (w : Wal D) : SyncResult := w.device.head?.getD .ok

def sync (w : Wal D) : Wal D × Bool :=
  if w.failed then (w, false)
  else if w.buffer.isEmpty then (w, true)
  else
    match w.outcome with
    | .ok =>
        ({ w with file := w.file ++ w.buffer, buffer := [], device := w.device.tail }, true)
    | .failed kept =>
        ({ w with
            file := w.file ++ w.buffer.take kept
            lost := w.buffer.drop kept
            buffer := []
            failed := true
            device := w.device.tail }, false)

end Wal

end RaftKv
