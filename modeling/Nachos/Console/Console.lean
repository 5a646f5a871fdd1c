import Nachos.Threads.Kernel
import Nachos.Mips.Defs

/-!
# The console and its test

`class Console` (`console.cc`) and `ConsoleTest` (`progtest.cc`), as a client of the kernel. The
console keeps the character that was typed last until it is taken, and it puts one character at a
time. What a poll of the keyboard finds is the choice of the environment.
-/

namespace Nachos.Console

open Lib Mips Threads

/-- `EOF`, as a `char`. -/
abbrev eof : Byte := 0xff

/-- `'q'`. -/
abbrev q : Byte := 0x71

/-! ### The device -/

/-- What a poll of `readFile` finds: nothing, a character, or the end of the file. -/
inductive Poll where
  | nothing
  | char (c : Byte)
  | atEnd
  deriving DecidableEq

/-- `class Console`: what is in `writeFile`, the character that was read, `putBusy`, and how many of
the interrupts `ConsoleWriteDone` that were scheduled have not happened yet. -/
structure Console where
  writeFile : List Byte
  incoming : Byte
  putBusy : Bool
  scheduled : ℕ

namespace Console

/-- `Console::Console`. -/
def new : Console where
  writeFile := []
  incoming := eof
  putBusy := false
  scheduled := 0

variable (con : Console)

/-- `Console::CheckCharAvail`. Is the handler called? `Read` asserts that there is a character. -/
def checkCharAvail (poll : Poll) : Except Fault (Bool × Console) :=
  if con.incoming ≠ eof then .ok (false, con)
  else match poll with
  | .nothing => .ok (false, con)
  | .char c => .ok (true, { con with incoming := c })
  | .atEnd => .error .assertion

/-- `Console::WriteDone`. -/
def writeDone : Except Fault Console :=
  if con.scheduled = 0 then .error .disabled
  else .ok { con with putBusy := false, scheduled := con.scheduled - 1 }

/-- `Console::GetChar`. -/
def getChar : Byte × Console := (con.incoming, { con with incoming := eof })

/-- `Console::PutChar`. -/
def putChar (ch : Byte) : Except Fault Console :=
  if con.putBusy = false then
    .ok { con with
      writeFile := con.writeFile ++ [ch]
      putBusy := true
      scheduled := con.scheduled + 1 }
  else .error .assertion

end Console

/-! ### The test -/

/-- `readAvail` and `writeDone`. -/
abbrev readAvailSem : ℕ := 0
abbrev writeDoneSem : ℕ := 1

/-- The points of `ConsoleTest`. -/
inductive Label where
  /-- At the head of the loop. -/
  | await
  /-- After `readAvail->P()`. -/
  | get
  /-- After `writeDone->P()`. -/
  | written (ch : Byte)
  /-- After `ConsoleTest` has returned, at `interrupt->Halt()`. -/
  | done
  deriving DecidableEq

/-- `ConsoleTest`. -/
def code (_ : Unit) (_ : Tid) (c : Label) (_ : Ret) (con : Console) :
    Except Fault (Console × Call Label) :=
  match c with
  | .await => .ok (con, .down readAvailSem .get)
  | .get =>
    let (ch, con) := con.getChar
    match con.putChar ch with
    | .error f => .error f
    | .ok con => .ok (con, .down writeDoneSem (.written ch))
  | .written ch => .ok (con, .skip (if ch = q then .done else .await))
  | .done => .error .halt

/-- The interrupts of the console: `ConsoleReadPoll`, with what the poll finds, and
`ConsoleWriteDone`. -/
inductive ConsoleInt where
  | readPoll (poll : Poll)
  | writeDone
  deriving DecidableEq

/-- `CheckCharAvail` with `ReadAvail`, and `WriteDone`. -/
def handler : ConsoleInt → Console → Except Fault (Console × Option ℕ)
  | .readPoll poll, con =>
    match con.checkCharAvail poll with
    | .error f => .error f
    | .ok (called, con) => .ok (con, if called then some readAvailSem else none)
  | .writeDone, con =>
    match con.writeDone with
    | .error f => .error f
    | .ok con => .ok (con, some writeDoneSem)

/-- The machine with its console. -/
def consoleTest : Client Label Console Unit ConsoleInt where
  code := code
  handler := handler

/-- What is seen: a character is read off the keyboard, and one is written to the display. -/
inductive ConsoleEvent where
  | typed (c : Byte)
  | echoed (c : Byte)
  deriving DecidableEq

/-- What a step shows. -/
def consoleEvents : Choice Unit ConsoleInt → State Label Console → List ConsoleEvent
  | .interrupt (.readPoll (.char c)), s => if s.shared.incoming ≠ eof then [] else [.typed c]
  | .run _ _, s =>
    match s.mode, s.loc s.currentThread with
    | .running, .run (.client .get) _ => [.echoed s.shared.incoming]
    | _, _ => []
  | _, _ => []

/-- One step of the machine, which shows what is typed and what is echoed. -/
def consoleStep : Choice Unit ConsoleInt → State Label Console →
    Except Fault (List ConsoleEvent × State Label Console) :=
  observed (step consoleTest) consoleEvents

/-- The machine when `ConsoleTest` has made the console and the semaphores. -/
def start : State Label Console := .init .await (fun _ => 0) .new

/-- The characters that were typed. -/
def typed (es : List ConsoleEvent) : List Byte :=
  es.filterMap fun e => match e with
    | .typed c => some c
    | _ => none

/-- The characters that were echoed. -/
def echoed (es : List ConsoleEvent) : List Byte :=
  es.filterMap fun e => match e with
    | .echoed c => some c
    | _ => none

end Nachos.Console
