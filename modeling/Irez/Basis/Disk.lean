/-
  File:      Irez/Basis/Disk.lean
  Subject:   A directory that a crash may throw back: what its names hold now, and what a
             crash may leave them with.

  A write is on the disk when its file is flushed, a change of names when the directory is.
  Until then a crash may keep any earlier entry of a name, and may leave anything in a file
  that was not flushed.

  * `Disk` -- for each name its entry now (`live`) and the entries it had since the last flush
    of the directory (`earlier`); `create`, `write`, `flush`, `remove`, `rename`, `flushAll`;
  * `Crash` -- what a crash may leave;
  * `SameAt`, `Settled` -- a name that is as before, and a name whose file is on the disk:
    `Settled.crash`, a crash keeps it.
-/
import Mathlib.Logic.Function.Basic

namespace Irez.Basis

/-- A file: its content, and whether that is on the disk. -/
structure File (β : Type) where
  content : β
  flushed : Bool
  deriving DecidableEq, Repr

structure Disk (ν β : Type) where
  live : ν → Option (File β)
  earlier : ν → List (Option (File β))

namespace Disk

variable {ν β : Type} (d : Disk ν β)

/-! ## 1. Operations -/

section Operations

variable [DecidableEq ν]

/-- The entry of a name is replaced. -/
def relink (n : ν) (entry : Option (File β)) : Disk ν β :=
  { live := Function.update d.live n entry
    earlier := Function.update d.earlier n (d.live n :: d.earlier n) }

/-- The file of a name is changed. -/
def rewrite (n : ν) (file : File β) : Disk ν β :=
  { d with live := Function.update d.live n (some file) }

/-- A new file, with the content `empty`. -/
def create (n : ν) (empty : β) : Disk ν β := d.relink n (some ⟨empty, false⟩)

def write (n : ν) (content : β) : Disk ν β := d.rewrite n ⟨content, false⟩

/-- `fsync` of a file. -/
def flush (n : ν) : Disk ν β :=
  match d.live n with
  | some file => d.rewrite n { file with flushed := true }
  | none => d

def remove (n : ν) : Disk ν β := d.relink n none

def rename (source target : ν) : Disk ν β := (d.relink target (d.live source)).relink source none

/-- `fsync` of the directory. -/
def flushAll : Disk ν β := { d with earlier := fun _ => [] }

end Operations

/-! ## 2. Crashes -/

/-- The entries that a crash may leave a name with. -/
def entries (n : ν) : List (Option (File β)) := d.live n :: d.earlier n

/-- What a crash may leave: of each name an entry it had, with its content where that was
    flushed. What is left is on the disk. -/
def Crash (d' : Disk ν β) : Prop :=
  ∀ n, d'.earlier n = [] ∧ ∃ entry ∈ d.entries n, match entry with
    | none => d'.live n = none
    | some file => ∃ content, (file.flushed = true → content = file.content) ∧
        d'.live n = some ⟨content, true⟩

/-- All files a name may hold are flushed. -/
def Flushed (n : ν) : Prop := ∀ file, some file ∈ d.entries n → file.flushed = true

/-- The name holds the content, on the disk. -/
def Settled (n : ν) (content : β) : Prop := d.live n = some ⟨content, true⟩ ∧ d.earlier n = []

variable {d} {d' : Disk ν β} {n m : ν} {content : β}

theorem Settled.crash (h : d.Settled n content) (hc : d.Crash d') : d'.Settled n content := by
  obtain ⟨hnil, entry, hmem, hentry⟩ := hc n
  rw [entries, h.1, h.2, List.mem_singleton] at hmem
  subst hmem
  obtain ⟨c, hc, hl⟩ := hentry
  rw [hc rfl] at hl
  exact ⟨hl, hnil⟩

theorem Crash.flushed (hc : d.Crash d') (n : ν) : d'.Flushed n := by
  obtain ⟨hnil, entry, _, hentry⟩ := hc n
  intro file hf
  rw [entries, hnil, List.mem_singleton] at hf
  cases entry with
  | none =>
    rw [hentry] at hf
    cases hf
  | some g =>
    obtain ⟨c, _, hl⟩ := hentry
    rw [hl] at hf
    cases hf
    rfl

/-! ## 3. Frames -/

/-- The name is as before. -/
def SameAt (d d' : Disk ν β) (n : ν) : Prop := d'.live n = d.live n ∧ d'.earlier n = d.earlier n

theorem SameAt.flushed (h : SameAt d d' n) (hf : d.Flushed n) : d'.Flushed n := by
  unfold Flushed entries at *
  rwa [h.1, h.2]

variable [DecidableEq ν]

theorem sameAt_relink {entry : Option (File β)} (h : n ≠ m) : SameAt d (d.relink m entry) n := by
  simp [SameAt, relink, h]

theorem sameAt_rewrite {file : File β} (h : n ≠ m) : SameAt d (d.rewrite m file) n := by
  simp [SameAt, rewrite, h]

theorem sameAt_flush (h : n ≠ m) : SameAt d (d.flush m) n := by
  unfold flush
  split
  · exact sameAt_rewrite h
  · exact ⟨rfl, rfl⟩

theorem live_flush {file : File β} (h : d.live n = some file) :
    (d.flush n).live n = some { file with flushed := true } := by
  simp [flush, h, rewrite]

theorem live_rename (h : n ≠ m) : (d.rename n m).live m = d.live n := by
  simp [rename, relink, Function.update_of_ne h.symm]

theorem earlier_rename (h : n ≠ m) : (d.rename n m).earlier m = d.live m :: d.earlier m := by
  simp [rename, relink, Function.update_of_ne h.symm]

theorem sameAt_rename {k : ν} (hn : k ≠ n) (hm : k ≠ m) : SameAt d (d.rename n m) k := by
  simp [SameAt, rename, relink, hn, hm]

end Disk

end Irez.Basis
