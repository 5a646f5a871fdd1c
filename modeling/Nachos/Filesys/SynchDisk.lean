import Nachos.Filesys.Disk
import Nachos.Threads.Semaphore

/-!
# The synchronous disk

`class SynchDisk` (`synchdisk.cc`) over `class Disk` (`machine/disk.cc`), as a client of the
kernel: one lock, one semaphore, and a device that serves one request at a time and interrupts once
for each. The device moves the data when the request is made; when it interrupts is the choice of
the environment, and so is what a thread does between two calls.
-/

namespace Nachos.SynchDisk

open Lib Threads
open Filesys (Disk Memory readSector writeSector sectorSize)

/-- `lock` and `semaphore`. -/
abbrev lock : ℕ := 0
abbrev semaphore : ℕ := 0

/-- The calls, with `sectorNumber`, and `data` for a write. -/
inductive Op where
  | read (sectorNumber : ℤ)
  | write (sectorNumber : ℤ) (data : Memory)

/-- `class Disk`: the UNIX file, `active`, and how many of the interrupts that were scheduled have
not happened yet. The position of the head decides only when they happen. -/
structure Device where
  file : Disk
  active : Bool
  scheduled : ℕ

/-- The points of a thread: between two calls, and inside `ReadSector` and `WriteSector`, with what
`data` holds. -/
inductive Label where
  | idle
  /-- After `lock->Acquire()`. -/
  | request (op : Op)
  /-- After `semaphore->P()`. -/
  | served (op : Op) (data : Memory)
  /-- After `lock->Release()`. -/
  | returned (op : Op) (data : Memory)

/-- What a thread does next. -/
inductive Input where
  | call (op : Op)
  | fork
  | yield
  | finish

/-- `Disk::ReadRequest` and `Disk::WriteRequest`: what `data` holds after it. -/
def Device.request (d : Device) (op : Op) : Except Fault (Memory × Device) :=
  if d.active then .error .assertion
  else match op with
    | .read sectorNumber =>
      match readSector d.file sectorNumber with
      | .error f => .error f
      | .ok data => .ok (data, { d with active := true, scheduled := d.scheduled + 1 })
    | .write sectorNumber data =>
      match writeSector d.file sectorNumber data with
      | .error f => .error f
      | .ok file =>
        .ok (data, { d with file := file, active := true, scheduled := d.scheduled + 1 })

/-- The code of the threads. -/
def code (input : Input) (_ : Tid) (c : Label) (_ : Ret) (d : Device) :
    Except Fault (Device × Call Label) :=
  match c with
  | .idle => match input with
    | .call op => .ok (d, .acquire lock (.request op))
    | .fork => .ok (d, .fork .idle .idle)
    | .yield => .ok (d, .yield .idle)
    | .finish => .ok (d, .finish)
  | .request op =>
    match d.request op with
    | .error f => .error f
    | .ok (data, d') => .ok (d', .down semaphore (.served op data))
  | .served op data => .ok (d, .release lock (.returned op data))
  | .returned _ _ => .ok (d, .skip .idle)

/-- `Disk::HandleInterrupt`, which calls `RequestDone`. It happens once for each request. -/
def handler (_ : Unit) (d : Device) : Except Fault (Device × Option ℕ) :=
  if d.scheduled = 0 then .error .disabled
  else .ok ({ d with active := false, scheduled := d.scheduled - 1 }, some semaphore)

/-- The threads that share a `SynchDisk`. -/
def synchDisk : Client Label Device Input Unit where
  code := code
  handler := handler

/-! ### What is seen of the disk -/

/-- What is seen of the disk. -/
inductive DiskEvent where
  /-- `lock->Acquire()` is done. -/
  | acquired (t : Tid)
  /-- `disk->ReadRequest(…)` or `disk->WriteRequest(…)`. -/
  | requested (t : Tid) (op : Op)
  /-- The interrupt. -/
  | done
  /-- `ReadSector` or `WriteSector` returns. -/
  | returned (t : Tid) (op : Op) (data : Memory)

/-- What the running thread does as it goes on. -/
def threadEvents (s : State Label Device) : List DiskEvent :=
  match s.mode, s.loc s.currentThread with
  | .running, .run (.client (.request op)) _ => [.requested s.currentThread op]
  | .running, .run (.client (.returned op data)) _ => [.returned s.currentThread op data]
  | .running, .acquire l _ _ =>
    if l = .lock lock ∧ (s.lock l).free then [.acquired s.currentThread] else []
  | .running, .lockAsleep l _ _ =>
    if l = .lock lock ∧ (s.lock l).free then [.acquired s.currentThread] else []
  | _, _ => []

/-- What a step does. -/
def diskEvents : Choice Input Unit → State Label Device → List DiskEvent
  | .interrupt _, _ => [.done]
  | _, s => threadEvents s

/-- One step, which shows what it does to the disk. -/
def diskStep : Choice Input Unit → State Label Device →
    Except Fault (List DiskEvent × State Label Device) :=
  observed (step synchDisk) diskEvents

/-- The threads that acquired the lock, in that order. -/
def acquirers (es : List DiskEvent) : List Tid :=
  es.filterMap fun e => match e with
    | .acquired t => some t
    | _ => none

/-- The threads that made a request, in that order. -/
def requesters (es : List DiskEvent) : List Tid :=
  es.filterMap fun e => match e with
    | .requested t _ => some t
    | _ => none

/-- The requests, in that order. -/
def requests (es : List DiskEvent) : List Op :=
  es.filterMap fun e => match e with
    | .requested _ op => some op
    | _ => none

/-- The number of interrupts. -/
def interrupts (es : List DiskEvent) : ℕ :=
  es.countP fun e => match e with
    | .done => true
    | _ => false

/-- An event is a request. -/
def DiskEvent.IsRequest : DiskEvent → Prop
  | .requested _ _ => True
  | _ => False

/-- An event is a request or a return of `t`. -/
def DiskEvent.IsOf (t : Tid) : DiskEvent → Prop
  | .requested u _ => u = t
  | .returned u _ _ => u = t
  | _ => False

/-! ### A disk without threads -/

/-- The disk after the calls, one after the other. -/
def after (disk : Disk) : List Op → Disk
  | [] => disk
  | .read _ :: ops => after disk ops
  | .write sectorNumber data :: ops =>
    after (Function.update disk sectorNumber.toNat
      (copyAt (disk sectorNumber.toNat) 0 sectorSize data)) ops

/-- A write to a sector. -/
def Op.Writes (n : ℕ) : Op → Prop
  | .read _ => False
  | .write sectorNumber _ => sectorNumber.toNat = n

/-- The sector holds what the latest of the calls wrote to it, or what it held before. -/
def Latest (disk : Disk) (ops : List Op) (n : ℕ) (data : Memory) : Prop :=
  ((∀ op ∈ ops, ¬ op.Writes n) ∧ data = disk n) ∨
  ∃ a sectorNumber written b, ops = a ++ .write sectorNumber written :: b ∧
    sectorNumber.toNat = n ∧ (∀ op ∈ b, ¬ op.Writes n) ∧ ∀ i < sectorSize, data i = written i

/-- What a call finds in `data` when it returns. -/
def Answer (disk : Disk) (ops : List Op) : Op → Memory → Prop
  | .read sectorNumber, data => Latest disk ops sectorNumber.toNat data
  | .write _ written, data => data = written

/-- `t` made its request, and nobody another one since, before the interrupt came; what it has in
`data` is the answer to its call after the requests before. -/
def Completed (disk : Disk) (tr : List DiskEvent) (t : Tid) (op : Op) (data : Memory) : Prop :=
  ∃ a b c, tr = a ++ .requested t op :: (b ++ .done :: c) ∧ (∀ e ∈ b, ¬ e.IsRequest) ∧
    (∀ e ∈ b ++ c, ¬ e.IsOf t) ∧ Answer disk (requests a) op data

end Nachos.SynchDisk
