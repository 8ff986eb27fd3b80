import Tombstone.Interleave
import Tombstone.JsonWriter

/- The session log, as threads over its two locked parts (`session_log.cpp`).

   Lines are buffered under one mutex and written under another; `flush_now` takes what is
   buffered in one section and writes it in the next. The worker's paced flush, the crash
   path and the log reads are all `flush_now` on threads of their own. One action is one
   section; any number of threads take them in any order. The log is configured, and its
   file operations succeed. -/
namespace Tombstone.SessionLog

def maxLogBytes : Nat := 512 * 1024
def trimmedLogBytes : Nat := maxLogBytes / 2
def maxPendingBytes : Nat := 64 * 1024

/-- A line of the log, or what `take_pending` adds where lines were dropped. -/
inductive Entry
  /-- The `serial`-th line that was accepted; the number is proof-only. -/
  | line (serial : Nat) (text : Bytes)
  | notice (dropped : Nat)
  deriving DecidableEq, Repr

def Entry.text : Entry → Bytes
  | .line _ text => text
  | .notice dropped =>
    lit "[tombstone] session log buffer overflow: " ++ intText dropped ++ lit " lines dropped" ++ [10]

def Entry.isLine : Entry → Bool
  | .line _ _ => true
  | .notice _ => false

def textOf (entries : List Entry) : Bytes := entries.flatMap Entry.text

/-- The lines among the entries. -/
def lines (entries : List Entry) : List Entry := entries.filter Entry.isLine

/-- The text `append` buffers for a line. -/
def formatLine (tsIso level message : Bytes) : Bytes :=
  tsIso ++ lit " [" ++ level ++ lit "] " ++ message
    ++ if message.getLast? = some 10 then [] else [10]

/-- A call that has returned: the lines accepted before its flush began, and what had been
written to the file when it returned. -/
structure Return where
  before : List Entry
  file : List Entry

structure State where
  /-- Behind `pending_mutex_`. -/
  pending : List Entry := []
  droppedLines : Nat := 0
  /-- Behind `file_mutex_`. -/
  file : Bytes := []
  fileBytes : Nat := 0
  /-- Proof-only: the lines that were accepted; the chunks that were taken, which go by their
  place here; the chunks that were written, and what they put into the file before any trim;
  and the calls that have returned. -/
  accepted : List Entry := []
  chunks : List (List Entry) := []
  writtenIds : List Nat := []
  written : List Entry := []
  returns : List Return := []

inductive Act
  | append (tsIso level message : Bytes)
  /-- `flush_now` begins. -/
  | flushNow (read : Bool)
  /-- `take_pending`, in a flush that began when so many lines were accepted. -/
  | takePending (before : Nat) (read : Bool)
  /-- `write_chunk`, of the chunk with that number. -/
  | writeChunk (id : Nat) (chunk : List Entry)
  | readFile
  /-- The call returns. -/
  | finish (before : Nat)

/-- `SessionLog::append`. -/
def append (s : State) (tsIso level message : Bytes) : State :=
  if message.isEmpty then s
  else if maxPendingBytes ≤ (textOf s.pending).length then
    { s with droppedLines := s.droppedLines + 1 }
  else
    let line := Entry.line s.accepted.length (formatLine tsIso level message)
    { s with pending := s.pending ++ [line], accepted := s.accepted ++ [line] }

/-- What `take_pending` takes. -/
def State.chunk (s : State) : List Entry :=
  s.pending ++ if s.droppedLines > 0 then [.notice s.droppedLines] else []

/-- `take_pending`, and what is left to do: to write the chunk, if it is not empty. -/
def takePending (s : State) : State × List Act :=
  if s.pending.isEmpty then (s, [])
  else
    ({ s with pending := [], droppedLines := 0, chunks := s.chunks ++ [s.chunk] },
      [.writeChunk s.chunks.length s.chunk])

/-- `trim_from_front`: the newest half, from a whole line on. -/
def trimFromFront (all : Bytes) : Bytes :=
  if all.length ≤ trimmedLogBytes then all
  else ((all.drop (all.length - trimmedLogBytes)).dropWhile (· != 10)).drop 1

/-- `write_chunk`. -/
def writeChunk (s : State) (id : Nat) (chunk : List Entry) : State :=
  let file := s.file ++ textOf chunk
  let fileBytes := s.fileBytes + (textOf chunk).length
  let s := { s with writtenIds := s.writtenIds ++ [id], written := s.written ++ chunk }
  if maxLogBytes < fileBytes then
    let trimmed := trimFromFront file
    { s with file := trimmed, fileBytes := trimmed.length }
  else { s with file, fileBytes }

def perform (s : State) (a : Act) (_ : Unit) : Option (State × List Act) :=
  match a with
  | .append tsIso level message => some (append s tsIso level message, [])
  | .flushNow read => some (s, [.takePending s.accepted.length read])
  | .takePending before read =>
    let taken := takePending s
    some (taken.1, taken.2 ++ (if read then [.readFile] else []) ++ [.finish before])
  | .writeChunk id chunk => some (writeChunk s id chunk, [])
  | .readFile => some (s, [])
  | .finish before =>
    some ({ s with returns := s.returns ++ [⟨s.accepted.take before, s.written⟩] }, [])

/-- The calls: of the host, of the worker's loop, of the destructor. -/
inductive Entered
  | append (tsIso level message : Bytes)
  | flushNow
  | readCurrent
  /-- `report_crash` with the log attached: the crash line, then a flush. -/
  | reportCrash (tsIso message : Bytes)

def call (s : State) (_ : Nat) : Entered → Option (State × List Act)
  | .append tsIso level message => some (s, [.append tsIso level message])
  | .flushNow => some (s, [.flushNow false])
  | .readCurrent => some (s, [.flushNow true])
  | .reportCrash tsIso message => some (s, [.append tsIso (lit "Crash") message, .flushNow false])

def machine : Interleave.Machine State Act Unit Entered Empty where
  perform := perform
  call := call
  env := fun _ e => e.elim

abbrev Config := Interleave.Config State Act
abbrev Label := Interleave.Label Unit Entered Empty

def step : Config → Label → Option Config := Interleave.step machine

/-- `n` idle threads, and a fresh log. -/
def start (n : Nat) : Config := ⟨{}, List.replicate n []⟩

/-! ## What is asked of it -/

/-- The file, before any trim, is the accepted lines in the order of their acceptance, as far as
they were written. -/
def Ordered (s : State) : Prop := lines s.written <+: s.accepted

/-- When a flush returned, every line accepted before it began was in the file. -/
def Complete (s : State) : Prop := ∀ r ∈ s.returns, ∀ e ∈ r.before, e ∈ r.file

instance (s : State) : Decidable (Ordered s) :=
  inferInstanceAs (Decidable (lines s.written <+: s.accepted))

instance (s : State) : Decidable (Complete s) :=
  inferInstanceAs (Decidable (∀ r ∈ s.returns, ∀ e ∈ r.before, e ∈ r.file))

/-- The chunks that the threads have taken and not written yet. -/
def Unwritten (c : Config) (id : Nat) (chunk : List Entry) : Prop :=
  ∃ p ∈ c.threads, Act.writeChunk id chunk ∈ p

/-- No chunk is written before one that was taken earlier, and no flush returns while another
thread has still to write a line that was accepted before it began. -/
def InTurn (c : Config) (l : Label) : Prop :=
  match Interleave.acting c l with
  | some (.writeChunk id _) => ∀ id' chunk, Unwritten c id' chunk → id ≤ id'
  | some (.finish before) => ∀ id chunk, Unwritten c id chunk →
      ∀ serial text, Entry.line serial text ∈ chunk → before ≤ serial
  | _ => True

end Tombstone.SessionLog
