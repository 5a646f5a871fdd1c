import Nachos.Filesys.Space

/-!
# The file system as a store of byte arrays

What the file system is for: a finite map from names to byte arrays, whose lengths never change. Of
a name, only the first characters count. A handle stands for a name and a position. How much can be
stored is bounded by two numbers, the free entries and the free sectors.
-/

namespace Nachos.Filesys

open Lib Threads Userprog Mips

/-- The stored files, the handles and the room for more. -/
structure Store where
  files : List Byte → Option (List Byte)
  handles : ℕ → Option (List Byte × ℕ)
  freeEntries : ℕ
  freeSectors : ℕ

/-- `data`, with `n` bytes of the source at the position `p`, as far as it goes. -/
def overlay (data : List Byte) (p n : ℕ) (source : Memory) : List Byte :=
  data.mapIdx fun i b => if p ≤ i ∧ i < p + n then source (i - p) else b

/-- What `n` bytes at the position `p` are, as far as the data goes. -/
def part (data : List Byte) (p n : ℕ) : List Byte := (data.drop p).take n

namespace Store

variable (t : Store)

/-- The name of a file, as far as it counts. -/
abbrev nameOf (name : List Byte) : List Byte := key (cString name)

/-- There is room for a new file. -/
def Room (k : List Byte) (n : ℕ) : Prop :=
  t.files k = none ∧ 0 < t.freeEntries ∧ 1 + FileHeader.sectorsFor n ≤ t.freeSectors

def setFile (k : List Byte) (v : Option (List Byte)) : Store :=
  { t with files := Function.update t.files k v }

def setHandle (h : ℕ) (v : Option (List Byte × ℕ)) : Store :=
  { t with handles := Function.update t.handles h v }

/-- A new file takes an entry, and sectors for its header and its data. -/
def add (k : List Byte) (data : List Byte) : Store :=
  { t with
    files := Function.update t.files k (some data)
    freeEntries := t.freeEntries - 1
    freeSectors := t.freeSectors - (1 + FileHeader.sectorsFor data.length) }

/-- A file that is removed gives them back, and its handles are gone. -/
def drop (k : List Byte) (data : List Byte) : Store where
  files := Function.update t.files k none
  handles h := (t.handles h).filter (·.1 ≠ k)
  freeEntries := t.freeEntries + 1
  freeSectors := t.freeSectors + (1 + FileHeader.sectorsFor data.length)

/-- **What an operation does to the store and returns.** The bytes of a new file are not specified. -/
def Does : Op → Result → Store → Prop
  | .create name initialSize, r, t' =>
    (t.Room (nameOf name) initialSize.toInt.toNat ∧ r = .success true ∧
        ∃ data : List Byte, data.length = initialSize.toInt.toNat ∧ t' = t.add (nameOf name) data) ∨
      (¬ t.Room (nameOf name) initialSize.toInt.toNat ∧ r = .success false ∧ t' = t)
  | .openFile h name, r, t' =>
    (t.files (nameOf name) ≠ none ∧ r = .success true ∧
        t' = t.setHandle h (some (nameOf name, 0))) ∨
      (t.files (nameOf name) = none ∧ r = .success false ∧ t' = t.setHandle h none)
  | .seek h position, r, t' => ∃ k pos, t.handles h = some (k, pos) ∧ r = .unit ∧
      t' = t.setHandle h (some (k, position.toInt.toNat))
  | .read h numBytes, r, t' => ∃ k pos data, t.handles h = some (k, pos) ∧ t.files k = some data ∧
      r = .bytes (part data pos numBytes.toInt.toNat) ∧
      t' = t.setHandle h (some (k, pos + (part data pos numBytes.toInt.toNat).length))
  | .write h source numBytes, r, t' => ∃ k pos data, t.handles h = some (k, pos) ∧
      t.files k = some data ∧ r = .count (part data pos numBytes.toInt.toNat).length ∧
      t' = (t.setFile k (some (overlay data pos numBytes.toInt.toNat source))).setHandle h
        (some (k, pos + (part data pos numBytes.toInt.toNat).length))
  | .readAt h numBytes position, r, t' => ∃ k pos data, t.handles h = some (k, pos) ∧
      t.files k = some data ∧ r = .bytes (part data position.toInt.toNat numBytes.toInt.toNat) ∧
      t' = t
  | .writeAt h source numBytes position, r, t' => ∃ k pos data, t.handles h = some (k, pos) ∧
      t.files k = some data ∧
      r = .count (part data position.toInt.toNat numBytes.toInt.toNat).length ∧
      t' = t.setFile k (some (overlay data position.toInt.toNat numBytes.toInt.toNat source))
  | .length h, r, t' => ∃ k pos data, t.handles h = some (k, pos) ∧ t.files k = some data ∧
      r = .count data.length ∧ t' = t
  | .remove name, r, t' =>
    (∃ data, t.files (nameOf name) = some data ∧ r = .success true ∧
        t' = t.drop (nameOf name) data) ∨
      (t.files (nameOf name) = none ∧ r = .success false ∧ t' = t)
  | .restart, r, t' => r = .unit ∧ t' = { t with handles := fun _ => none }

/-- The steps of the store. -/
def Step (t : Store) (es : List (Op × Result)) (t' : Store) : Prop :=
  ∃ op r, es = [(op, r)] ∧ t.Does op r t'

/-- The store on a formatted disk. -/
def empty : Store := ⟨fun _ => none, fun _ => none, numDirEntries, numSectors - 5⟩

end Store

/-! ### What the store keeps -/

namespace Store

variable {t t' : Store} {op : Op} {r : Result} {k k' : List Byte} {v : Option (List Byte)}
  {data data' : List Byte}

/-- The file that an operation may change. -/
def changes (t : Store) : Op → Option (List Byte)
  | .create name _ | .remove name => some (nameOf name)
  | .write h .. | .writeAt h .. => (t.handles h).map (·.1)
  | _ => none

@[simp] lemma length_overlay {p n : ℕ} {source : Memory} :
    (overlay data p n source).length = data.length := by simp [overlay]

lemma update_of_changes {files : List Byte → Option (List Byte)} (h : some k' ≠ some k) :
    Function.update files k' v k = files k :=
  Function.update_of_ne (fun hk => h (congrArg some hk.symm)) ..

/-- **An operation on one file changes no other file.** -/
theorem files_of_does (h : t.Does op r t') (hk : t.changes op ≠ some k) :
    t'.files k = t.files k := by
  cases op with
  | create name initialSize =>
    rcases h with ⟨-, -, data, -, rfl⟩ | ⟨-, -, rfl⟩
    · exact update_of_changes hk
    · rfl
  | openFile h' name =>
    rcases h with ⟨-, -, rfl⟩ | ⟨-, -, rfl⟩
    · rfl
    · rfl
  | write h' source numBytes =>
    obtain ⟨k', pos, data, ht, -, -, rfl⟩ := h
    rw [changes, ht] at hk
    exact update_of_changes hk
  | writeAt h' source numBytes position =>
    obtain ⟨k', pos, data, ht, -, -, rfl⟩ := h
    rw [changes, ht] at hk
    exact update_of_changes hk
  | remove name =>
    rcases h with ⟨data, -, -, rfl⟩ | ⟨-, -, rfl⟩
    · exact update_of_changes hk
    · rfl
  | seek h' position =>
    obtain ⟨k', pos, -, -, rfl⟩ := h
    rfl
  | read h' numBytes =>
    obtain ⟨k', pos, data, -, -, -, rfl⟩ := h
    rfl
  | readAt h' numBytes position =>
    obtain ⟨k', pos, data, -, -, -, rfl⟩ := h
    rfl
  | length h' =>
    obtain ⟨k', pos, data, -, -, -, rfl⟩ := h
    rfl
  | restart =>
    obtain ⟨-, rfl⟩ := h
    rfl

/-- **The length of a file never changes.** -/
theorem length_of_does (h : t.Does op r t') (hk : t.files k = some data)
    (hk' : t'.files k = some data') : data'.length = data.length := by
  by_cases hc : t.changes op = some k
  swap
  · rw [files_of_does h hc, hk] at hk'
    cases hk'
    rfl
  cases op with
  | create name initialSize =>
    cases hc
    rcases h with ⟨hroom, -⟩ | ⟨-, -, rfl⟩
    · rw [hroom.1] at hk
      cases hk
    · rw [hk] at hk'
      cases hk'
      rfl
  | write h' source numBytes =>
    obtain ⟨k', pos, old, ht, hfile, -, rfl⟩ := h
    rw [changes, ht] at hc
    cases hc
    rw [hfile] at hk
    cases hk
    have hnew := (Function.update_self ..).symm.trans hk'
    cases hnew
    exact length_overlay
  | writeAt h' source numBytes position =>
    obtain ⟨k', pos, old, ht, hfile, -, rfl⟩ := h
    rw [changes, ht] at hc
    cases hc
    rw [hfile] at hk
    cases hk
    have hnew := (Function.update_self ..).symm.trans hk'
    cases hnew
    exact length_overlay
  | remove name =>
    cases hc
    rcases h with ⟨old, -, -, rfl⟩ | ⟨hnone, -⟩
    · have hnew := (Function.update_self ..).symm.trans hk'
      cases hnew
    · rw [hk] at hnone
      cases hnone
  | openFile | seek | read | readAt | length | restart => cases hc

end Store

end Nachos.Filesys
