import Nachos.Threads.Kernel

/-!
# Synchronized lists

`class SynchList` (`synchlist.cc`) as a client of the kernel: a list, a lock and a condition, and
threads that call `Append` and `Remove` on it. What a thread does between two calls is the choice
of the environment.
-/

namespace Nachos.Threads

namespace SynchList

/-- `lock` and `listEmpty`. -/
abbrev lock : ℕ := 0
abbrev listEmpty : ℕ := 0

/-- The points of a thread: between two calls, and inside `Append` and `Remove`. -/
inductive Label where
  | idle
  /-- `Append`, after `lock->Acquire()` and after `listEmpty->Signal(lock)`. -/
  | append (item : ℕ)
  | appended
  /-- `Remove`, at the test of the loop. -/
  | remove
  /-- `Remove`, after `lock->Release()`. -/
  | removed (item : ℕ)
  deriving DecidableEq

/-- What a thread does next; `NULL` is `0`. -/
inductive Input where
  | append (item : ℕ)
  | remove
  | fork
  | yield
  | finish

/-- The code of the threads. The shared data is `list`. -/
def code (input : Input) (_ : Tid) (c : Label) (_ : Ret) (list : List ℕ) :
    Except Fault (List ℕ × Call Label) :=
  match c with
  | .idle => match input with
    | .append item => .ok (list, .acquire lock (.append item))
    | .remove => .ok (list, .acquire lock .remove)
    | .fork => .ok (list, .fork .idle .idle)
    | .yield => .ok (list, .yield .idle)
    | .finish => .ok (list, .finish)
  | .append item => .ok (list ++ [item], .signal listEmpty lock .appended)
  | .appended => .ok (list, .release lock .idle)
  | .remove => match list with
    | [] => .ok (list, .wait listEmpty lock .remove)
    | item :: rest =>
      if item = 0 then .error .assertion else .ok (rest, .release lock (.removed item))
  | .removed _ => .ok (list, .skip .idle)

end SynchList

/-- The threads that share a `SynchList`. -/
def synchList : Client SynchList.Label (List ℕ) SynchList.Input Empty where
  code := SynchList.code
  handler := fun h => nomatch h

end Nachos.Threads
