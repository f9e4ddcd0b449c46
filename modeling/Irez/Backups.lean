/-
  File:      Irez/Backups.lean
  Subject:   `write_json_config` with the files next to the configuration (mcp/src/install.rs 456-477).

  A call copies the old configuration to a file named after the second, writes the new one to a
  temporary file and renames it. The copy replaces a file that has its name already.

  * `writeJsonConfig` -- one call, with the step at which it fails;
  * `refines` -- of the configuration it does what `Installer.writeJsonConfig` says;
  * `Write.Spares` -- the call finds no other backup under the name of its second;
  * `keeps_iff` -- a call keeps every backup exactly where it does;
  * `config_backups_kept` -- so do all the calls one after the other, and add what they replace;
  * `OneSecond` -- two calls within a second: the first backup is gone.
-/
import Irez.Basis.Utf8
import Irez.Install
import Irez.Timestamp

open Irez.Basis Irez.Basis.Json Irez.Basis.Utf8

namespace Irez.Installer.Directory

/-! ## 1. Names -/

/-- `file_stem`: up to the last dot, unless that is the first character. -/
def fileStem (name : List Char) : List Char :=
  match name.reverse.dropWhile (· ≠ '.') with
  | [] => name
  | _ :: before => if before = [] then name else before.reverse

/-- `with_extension`, of the name of a file. -/
def withExtension (name extension : List Char) : List Char := fileStem name ++ '.' :: extension

def temporaryName (name : List Char) (pid : Nat) : List Char :=
  withExtension name ("tmp-".toList ++ Nat.toDigits 10 pid)

/-- The name is that of a backup of the file. -/
def IsBackup (name b : List Char) : Prop :=
  ∃ secs stamp, chronoFreeTimestamp secs = some stamp ∧ b = backupName name stamp

/-! ## 2. A call -/

/-- What the names of a directory hold. -/
abbrev Dir := List Char → Option (List UInt8)

/-- The step at which a call fails. A file that was being written may hold something then. -/
inductive Fault where
  | parent
  | backup (left : Option (List UInt8))
  | temporary (left : Option (List UInt8))
  | remove
  | rename
  deriving DecidableEq, Repr

/-- A call: the clock, the process, the text it writes, and its fault. -/
structure Write where
  secs : UInt64
  pid : Nat
  text : List Char
  fault : Option Fault

/-- `if path.exists() { .. fs::copy(..) .. }`. -/
def backUp (name : List Char) (w : Write) (d : Dir) : Except Failure Unit × Dir :=
  match d name with
  | none => (.ok (), d)
  | some content =>
    match chronoFreeTimestamp w.secs with
    | none => (.error .panic, d)
    | some stamp =>
      match w.fault with
      | some (.backup none) => (.error .io, d)
      | some (.backup (some left)) =>
        (.error .io, Function.update d (backupName name stamp) (some left))
      | _ => (.ok (), Function.update d (backupName name stamp) (some content))

/-- `fs::rename`. -/
def rename (name temporary : List Char) (w : Write) (d : Dir) : Except Failure Unit × Dir :=
  if w.fault = some .rename then (.error .io, d)
  else
    match d temporary with
    | none => (.error .io, d)
    | some content => (.ok (), Function.update (Function.update d temporary none) name (some content))

/-- What follows the backup. -/
def replaceConfig (windows : Bool) (name : List Char) (w : Write) (d : Dir) :
    Except Failure Unit × Dir :=
  let temporary := temporaryName name w.pid
  match w.fault with
  | some (.temporary none) => (.error .io, d)
  | some (.temporary (some left)) => (.error .io, Function.update d temporary (some left))
  | fault =>
    let d := Function.update d temporary (some (encode w.text))
    if windows && (d name).isSome then
      if fault = some .remove then (.error .io, d)
      else rename name temporary w (Function.update d name none)
    else rename name temporary w d

def writeJsonConfig (windows : Bool) (name : List Char) (w : Write) (d : Dir) :
    Except Failure Unit × Dir :=
  if w.fault = some .parent then (.error .io, d)
  else
    match backUp name w d with
    | (.error e, d) => (.error e, d)
    | (.ok (), d) => replaceConfig windows name w d

/-! ### Names apart -/

theorem name_ne_backupName (name stamp : List Char) : name ≠ backupName name stamp := by
  intro h
  have hl := congrArg List.length h
  simp [backupName] at hl

/-- What follows the last dot of a name. -/
theorem lastField_inj {xs ys xs' ys' : List Char} (hx : '.' ∉ xs') (hy : '.' ∉ ys')
    (h : xs ++ '.' :: xs' = ys ++ '.' :: ys') : xs' = ys' := by
  have hrev := congrArg List.reverse h
  simp only [List.reverse_append, List.reverse_cons, List.append_assoc, List.singleton_append] at hrev
  have hfirst := (append_sep_inj (by simpa using hx) (by simpa using hy) hrev).1
  exact List.reverse_injective hfirst

theorem padded_no_dot {width n : Nat} : '.' ∉ padded width n := fun h =>
  absurd (isDigit_of_mem_padded _ h) (by decide)

theorem stamp_no_dot {secs : UInt64} {stamp : List Char} (h : chronoFreeTimestamp secs = some stamp) :
    '.' ∉ stamp := by
  obtain ⟨c, hc, hat⟩ := civil_at secs
  rw [chronoFreeTimestamp, hc] at h
  obtain rfl := Option.some.inj h
  obtain ⟨d, hy, -⟩ := hat.date
  unfold Civil.text
  rw [hy, paddedYear_eq]
  simp [padded_no_dot]

/-- **No temporary file is a backup.** -/
theorem temporaryName_not_backup {name b : List Char} {pid : Nat} (hb : IsBackup name b) :
    temporaryName name pid ≠ b := by
  obtain ⟨secs, stamp, hstamp, rfl⟩ := hb
  intro h
  have hdigits : '.' ∉ "tmp-".toList ++ Nat.toDigits 10 pid := by
    intro hm
    rcases List.mem_append.mp hm with hm | hm
    · exact absurd hm (by decide)
    · exact absurd (Nat.isDigit_of_mem_toDigits (by decide) (by decide) hm) (by decide)
  have hbackup : '.' ∉ "bak-".toList ++ stamp := by
    intro hm
    rcases List.mem_append.mp hm with hm | hm
    · exact absurd hm (by decide)
    · exact stamp_no_dot hstamp hm
  have hname : backupName name stamp = name ++ '.' :: ("bak-".toList ++ stamp) := by
    simp [backupName]
  rw [hname] at h
  have hlast := lastField_inj hdigits hbackup h
  cases hlast

/-! ## 3. What a call keeps -/

/-- What the call puts under the name of its backup. -/
def Write.copies (w : Write) : Option (List UInt8) → Option (List UInt8)
  | none => none
  | some content =>
    match w.fault with
    | some .parent => none
    | some (.backup left) => left
    | _ => some content

section Call

variable {windows : Bool} {name : List Char} {w : Write} {d : Dir}

theorem rename_other {temporary b : List Char} (ht : b ≠ temporary) (hn : b ≠ name) :
    (rename name temporary w d).2 b = d b := by
  unfold rename
  split
  · rfl
  · split
    · rfl
    · show Function.update (Function.update d temporary none) name _ b = d b
      rw [Function.update_of_ne hn, Function.update_of_ne ht]

theorem replaceConfig_backup {b : List Char} (hb : IsBackup name b) :
    (replaceConfig windows name w d).2 b = d b := by
  have ht : b ≠ temporaryName name w.pid := fun h => temporaryName_not_backup hb h.symm
  have hn : b ≠ name := by
    obtain ⟨_, stamp, _, rfl⟩ := hb
    exact fun h => name_ne_backupName name stamp h.symm
  unfold replaceConfig
  dsimp only
  split
  · rfl
  · exact Function.update_of_ne ht _ _
  · split
    · split
      · exact Function.update_of_ne ht _ _
      · rw [rename_other ht hn, Function.update_of_ne hn, Function.update_of_ne ht]
    · rw [rename_other ht hn, Function.update_of_ne ht]

/-- **The backups after a call**: at most that of its second is another one. -/
theorem writeJsonConfig_backup {b stamp : List Char} (hs : chronoFreeTimestamp w.secs = some stamp)
    (hb : IsBackup name b) : (writeJsonConfig windows name w d).2 b =
      if b = backupName name stamp then (w.copies (d name)).or (d b) else d b := by
  have hupdate : ∀ bytes, Function.update d (backupName name stamp) (some bytes) b =
      if b = backupName name stamp then some bytes else d b := by
    intro bytes
    exact Function.update_apply d _ _ b
  unfold writeJsonConfig backUp Write.copies
  cases hconfig : d name with
  | none =>
    simp only
    split
    · simp
    · simp [replaceConfig_backup hb]
  | some content =>
    rw [hs]
    dsimp only
    cases w.fault with
    | none => simp [replaceConfig_backup hb, hupdate]
    | some fault =>
      cases fault with
      | parent => simp
      | backup left =>
        cases left with
        | none => simp
        | some left => simp [hupdate]
      | temporary left => simp [replaceConfig_backup hb, hupdate]
      | remove => simp [replaceConfig_backup hb, hupdate]
      | rename => simp [replaceConfig_backup hb, hupdate]

/-- The content that a call replaced: that of the configuration, where it wrote another one or left
    none. -/
def Write.replaces (windows : Bool) (name : List Char) (w : Write) (d : Dir) : Option (List UInt8) :=
  match writeJsonConfig windows name w d with
  | (.ok (), _) => d name
  | (.error _, d') => if d' name = d name then none else d name

theorem replaces_config {content : List UInt8} (h : w.replaces windows name d = some content) :
    d name = some content := by
  unfold Write.replaces at h
  split at h
  · exact h
  · split at h
    · cases h
    · exact h

/-- A call that ends with the configuration as it was has replaced nothing. -/
theorem replaces_none {e : Failure} {d' : Dir} (h : writeJsonConfig windows name w d = (.error e, d'))
    (hd : d' name = d name) : w.replaces windows name d = none := by
  unfold Write.replaces
  rw [h]
  exact if_pos hd

/-- A copy that fails ends the call. -/
theorem writeJsonConfig_backup_fault {content : List UInt8} {stamp : List Char}
    {left : Option (List UInt8)} (hs : chronoFreeTimestamp w.secs = some stamp)
    (hconfig : d name = some content) (hfault : w.fault = some (.backup left)) :
    ∃ d', writeJsonConfig windows name w d = (.error .io, d') ∧ d' name = d name := by
  have hne := name_ne_backupName name stamp
  unfold writeJsonConfig backUp
  rw [hconfig, hfault, hs]
  cases left with
  | none => exact ⟨d, rfl, hconfig⟩
  | some left => exact ⟨_, rfl, (Function.update_of_ne hne _ _).trans hconfig⟩

/-- **What is replaced was copied.** -/
theorem copies_of_replaces {content : List UInt8} (h : w.replaces windows name d = some content) :
    w.copies (d name) = some content := by
  have hconfig := replaces_config h
  obtain ⟨stamp, hs⟩ := exists_stamp w.secs
  rw [hconfig]
  unfold Write.copies
  cases hfault : w.fault with
  | none => rfl
  | some fault =>
    cases fault with
    | parent =>
      have hcall : writeJsonConfig windows name w d = (.error .io, d) := by
        simp [writeJsonConfig, hfault]
      rw [replaces_none hcall rfl] at h
      cases h
    | backup left =>
      obtain ⟨d', hcall, hd⟩ : ∃ d', writeJsonConfig windows name w d = (.error .io, d') ∧
        d' name = d name := writeJsonConfig_backup_fault hs hconfig hfault
      rw [replaces_none hcall hd] at h
      cases h
    | temporary left => rfl
    | remove => rfl
    | rename => rfl

/-- **The call spares the backups**: under the name of its second there is none yet, or one that
    holds what the call puts there. -/
def Write.Spares (name : List Char) (w : Write) (d : Dir) : Prop :=
  ∀ stamp bytes, chronoFreeTimestamp w.secs = some stamp → w.copies (d name) = some bytes →
    d (backupName name stamp) = none ∨ d (backupName name stamp) = some bytes

/-- Every backup is still there, as it was. -/
def Keeps (name : List Char) (d d' : Dir) : Prop :=
  ∀ b content, IsBackup name b → d b = some content → d' b = some content

/-- **A call keeps every backup** exactly where it spares them. -/
theorem keeps_iff : Keeps name d (writeJsonConfig windows name w d).2 ↔ w.Spares name d := by
  constructor
  · intro h stamp bytes hs hcopies
    cases hold : d (backupName name stamp) with
    | none => exact .inl rfl
    | some content =>
      have hbackup : IsBackup name (backupName name stamp) := ⟨_, stamp, hs, rfl⟩
      have hkept := h _ content hbackup hold
      rw [writeJsonConfig_backup hs hbackup, if_pos rfl, hcopies, Option.some_or] at hkept
      exact .inr hkept.symm
  · intro h b content hb hold
    obtain ⟨stamp, hs⟩ := exists_stamp w.secs
    rw [writeJsonConfig_backup hs hb]
    split
    · rename_i hname
      cases hcopies : w.copies (d name) with
      | none => exact hold
      | some bytes =>
        rw [hname] at hold
        rcases h _ _ hs hcopies with hnone | hsame
        · rw [hnone] at hold
          cases hold
        · exact hsame.symm.trans hold
    · exact hold

/-- What was replaced lies in the backup of the call's second. -/
theorem backup_of_replaces {content : List UInt8} (h : w.replaces windows name d = some content) :
    ∃ b, IsBackup name b ∧ (writeJsonConfig windows name w d).2 b = some content := by
  obtain ⟨stamp, hs⟩ := exists_stamp w.secs
  have hb : IsBackup name (backupName name stamp) := ⟨_, _, hs, rfl⟩
  refine ⟨_, hb, ?_⟩
  rw [writeJsonConfig_backup hs hb, if_pos rfl, copies_of_replaces h]
  rfl

end Call

/-! ## 4. The configuration -/

/-- The file that `read_to_string` finds in an entry. -/
def Holds : Option (List UInt8) → File → Prop
  | none, .absent => True
  | some bytes, .text chars => encode chars = bytes
  | some bytes, .unreadable => ¬ WellFormed bytes
  | _, _ => False

/-- The fault as the configuration sees it; without a configuration there is no copy to fail. -/
def Fault.onConfig (config : Option (List UInt8)) : Option Fault → Option WriteFault
  | none => none
  | some .parent => some .prepare
  | some (.backup _) => if config.isSome then some .prepare else none
  | some (.temporary _) => some .prepare
  | some .remove => some .remove
  | some .rename => some .rename

theorem Holds.exists {entry : Option (List UInt8)} {f : File} (h : Holds entry f) :
    entry.isSome = f.exists := by
  cases entry with
  | none => cases f <;> first | rfl | cases h
  | some bytes => cases f <;> first | rfl | cases h

section Config

variable {windows : Bool} {name : List Char} {w : Write} {d : Dir}

/-- The last step, from a temporary file that is there. -/
theorem rename_config (name : List Char) (w : Write) (d : Dir) {temporary : List Char}
    {content : List UInt8} (h : d temporary = some content) : ((rename name temporary w d).1, (rename name temporary w d).2 name) =
      if w.fault = some .rename then (.error .io, d name) else (.ok (), some content) := by
  unfold rename
  by_cases hf : w.fault = some .rename
  · rw [if_pos hf, if_pos hf]
  · rw [if_neg hf, if_neg hf, h]
    exact Prod.ext rfl (Function.update_self _ _ _)

/-- **The configuration after its replacement**, and the answer. -/
theorem replaceConfig_config (windows : Bool) (d : Dir) (ht : temporaryName name w.pid ≠ name) :
    ((replaceConfig windows name w d).1, (replaceConfig windows name w d).2 name) =
      match w.fault with
      | some (.temporary _) => (.error .io, d name)
      | some .remove =>
        if windows && (d name).isSome then (.error .io, d name) else (.ok (), some (encode w.text))
      | some .rename => (.error .io, if windows && (d name).isSome then none else d name)
      | _ => (.ok (), some (encode w.text)) := by
  have hkept : ∀ entry, Function.update d (temporaryName name w.pid) entry name = d name :=
    fun entry => Function.update_of_ne (fun h => ht h.symm) _ _
  -- the temporary file stands, with the old configuration or without it
  have hwritten := rename_config name w
    (Function.update d (temporaryName name w.pid) (some (encode w.text)))
    (Function.update_self _ _ _)
  have hremoved := rename_config name w
    (Function.update (Function.update d (temporaryName name w.pid) (some (encode w.text))) name none)
    ((Function.update_of_ne ht _ _).trans (Function.update_self _ _ _))
  rw [Function.update_self] at hremoved
  rw [hkept] at hwritten
  unfold replaceConfig
  dsimp only
  rw [hkept]
  cases hfault : w.fault with
  | none =>
    rw [hfault] at hwritten hremoved
    by_cases hw : (windows && (d name).isSome) = true
    · simpa [hw] using hremoved
    · simpa [hw] using hwritten
  | some fault =>
    rw [hfault] at hwritten hremoved
    cases fault with
    | temporary left => cases left <;> simp [hkept]
    | parent =>
      by_cases hw : (windows && (d name).isSome) = true
      · simpa [hw] using hremoved
      · simpa [hw] using hwritten
    | backup left =>
      by_cases hw : (windows && (d name).isSome) = true
      · simpa [hw] using hremoved
      · simpa [hw] using hwritten
    | remove =>
      by_cases hw : (windows && (d name).isSome) = true
      · simp [hw, hkept]
      · simpa [hw] using hwritten
    | rename =>
      by_cases hw : (windows && (d name).isSome) = true
      · simpa [hw] using hremoved
      · simpa [hw] using hwritten

theorem writeJsonConfig_parent (hf : w.fault = some .parent) :
    writeJsonConfig windows name w d = (.error .io, d) := if_pos hf

/-- A call that gets past its backup. -/
theorem writeJsonConfig_past {d' : Dir} (hp : w.fault ≠ some .parent)
    (hb : backUp name w d = (.ok (), d')) :
    writeJsonConfig windows name w d = replaceConfig windows name w d' := by
  unfold writeJsonConfig
  rw [if_neg hp, hb]

/-- The backup is no obstacle, and leaves the configuration as it is. -/
theorem backUp_ok (h : ∀ left, w.fault = some (.backup left) → d name = none) :
    ∃ d', backUp name w d = (.ok (), d') ∧ d' name = d name := by
  obtain ⟨stamp, hs⟩ := exists_stamp w.secs
  unfold backUp
  cases hconfig : d name with
  | none => exact ⟨d, rfl, hconfig⟩
  | some content =>
    rw [hs]
    have hkept : Function.update d (backupName name stamp) (some content) name = some content :=
      (Function.update_of_ne (name_ne_backupName name stamp) _ _).trans hconfig
    cases hfault : w.fault with
    | none => exact ⟨_, rfl, hkept⟩
    | some fault =>
      cases fault with
      | backup left =>
        rw [h left hfault] at hconfig
        cases hconfig
      | parent => exact ⟨_, rfl, hkept⟩
      | temporary left => exact ⟨_, rfl, hkept⟩
      | remove => exact ⟨_, rfl, hkept⟩
      | rename => exact ⟨_, rfl, hkept⟩

/-- **Of the configuration the call does what `Installer.writeJsonConfig` says.** -/
theorem refines {S : Serde} {data : JsonValue} {config : File} (ht : temporaryName name w.pid ≠ name)
    (htext : w.text = S.toStringPretty data ++ ['\n']) (hconfig : Holds (d name) config) :
    ∃ config', Installer.writeJsonConfig S windows (Fault.onConfig (d name) w.fault) config data =
      ((writeJsonConfig windows name w d).1, config') ∧
      Holds ((writeJsonConfig windows name w d).2 name) config' := by
  have hexists := hconfig.exists
  have hwritten : Holds (some (encode w.text)) (written S data) := by
    rw [htext]
    rfl
  by_cases hp : w.fault = some .parent
  · rw [writeJsonConfig_parent hp, hp]
    exact ⟨config, rfl, hconfig⟩
  by_cases hb : ∀ left, w.fault = some (.backup left) → d name = none
  · obtain ⟨d', hbackUp, hd⟩ := backUp_ok hb
    have hnew := replaceConfig_config windows d' ht
    rw [hd] at hnew
    rw [writeJsonConfig_past hp hbackUp]
    obtain ⟨hanswer, hentry⟩ := Prod.mk.inj hnew
    rw [hanswer, hentry]
    cases hfault : w.fault with
    | none => exact ⟨written S data, rfl, hwritten⟩
    | some fault =>
      cases fault with
      | parent => exact absurd hfault hp
      | backup left =>
        rw [hb left hfault]
        exact ⟨written S data, rfl, hwritten⟩
      | temporary left => exact ⟨config, rfl, hconfig⟩
      | remove =>
        dsimp only [Fault.onConfig, Installer.writeJsonConfig]
        rw [← hexists]
        by_cases hw : (windows && (d name).isSome) = true
        · rw [if_pos hw, if_pos hw]
          exact ⟨config, rfl, hconfig⟩
        · rw [if_neg hw, if_neg hw]
          exact ⟨written S data, rfl, hwritten⟩
      | rename =>
        dsimp only [Fault.onConfig, Installer.writeJsonConfig]
        rw [← hexists]
        by_cases hw : (windows && (d name).isSome) = true
        · rw [if_pos hw, if_pos hw]
          exact ⟨.absent, rfl, trivial⟩
        · rw [if_neg hw, if_neg hw]
          exact ⟨config, rfl, hconfig⟩
  · obtain ⟨left, hleft⟩ := not_forall.mp hb
    obtain ⟨hfault, hsome⟩ := Classical.not_imp.mp hleft
    obtain ⟨content, hcontent⟩ := Option.ne_none_iff_exists'.mp hsome
    obtain ⟨stamp, hs⟩ := exists_stamp w.secs
    obtain ⟨d', hcall, hd⟩ : ∃ d', writeJsonConfig windows name w d = (.error .io, d') ∧
      d' name = d name := writeJsonConfig_backup_fault hs hcontent hfault
    rw [hcall, hfault, hcontent]
    refine ⟨config, rfl, ?_⟩
    show Holds (d' name) config
    rw [hd]
    exact hconfig

/-- A call that meets no fault. -/
theorem writeJsonConfig_ok (ht : temporaryName name w.pid ≠ name) (hf : w.fault = none) :
    ∃ d', writeJsonConfig windows name w d = (.ok (), d') ∧ d' name = some (encode w.text) := by
  have hp : w.fault ≠ some .parent := by
    rw [hf]
    exact fun h => by cases h
  obtain ⟨d', hbackUp, -⟩ : ∃ d', backUp name w d = (.ok (), d') ∧ d' name = d name :=
    backUp_ok fun left hleft => by
      rw [hf] at hleft
      cases hleft
  have hnew := replaceConfig_config windows d' ht
  rw [hf] at hnew
  obtain ⟨hanswer, hentry⟩ := Prod.mk.inj hnew
  rw [writeJsonConfig_past hp hbackUp]
  exact ⟨_, Prod.ext hanswer rfl, hentry⟩

end Config

/-! ## 5. Calls one after the other -/

section Run

variable (windows : Bool) (name : List Char)

def run : List Write → Dir → Dir
  | [], d => d
  | w :: ws, d => run ws (writeJsonConfig windows name w d).2

/-- The contents that the calls replaced. -/
def replaced : List Write → Dir → List (List UInt8)
  | [], _ => []
  | w :: ws, d =>
    (w.replaces windows name d).toList ++ replaced ws (writeJsonConfig windows name w d).2

/-- Every call spares the backups that it finds. -/
def AllSpare : List Write → Dir → Prop
  | [], _ => True
  | w :: ws, d => w.Spares name d ∧ AllSpare ws (writeJsonConfig windows name w d).2

variable {windows name} {ws : List Write} {d : Dir}

theorem run_keeps (h : AllSpare windows name ws d) : Keeps name d (run windows name ws d) := by
  induction ws generalizing d with
  | nil => exact fun _ _ _ hold => hold
  | cons w ws ih =>
    obtain ⟨hspares, hrest⟩ := h
    intro b content hb hold
    exact ih hrest b content hb (keeps_iff.mpr hspares b content hb hold)

/-- **What the calls replaced is still there**, where each of them spares the backups it finds. -/
theorem replaced_kept (h : AllSpare windows name ws d) : ∀ content ∈ replaced windows name ws d,
    ∃ b, IsBackup name b ∧ run windows name ws d b = some content := by
  induction ws generalizing d with
  | nil =>
    intro content hm
    cases hm
  | cons w ws ih =>
    obtain ⟨hspares, hrest⟩ := h
    intro content hm
    rcases List.mem_append.mp hm with hm | hm
    · obtain ⟨b, hb, hnow⟩ := backup_of_replaces (Option.mem_toList.mp hm)
      exact ⟨b, hb, run_keeps hrest b content hb hnow⟩
    · exact ih hrest content hm

/-- **Calls in different seconds** spare the backups, where no other file has their names. -/
theorem allSpare_of_seconds (h : (ws.map Write.secs).Nodup)
    (hfree : ∀ w ∈ ws, ∀ stamp, chronoFreeTimestamp w.secs = some stamp →
      d (backupName name stamp) = none) : AllSpare windows name ws d := by
  induction ws generalizing d with
  | nil => exact trivial
  | cons w ws ih =>
    obtain ⟨hnew, hrest⟩ := List.nodup_cons.mp h
    refine ⟨fun stamp bytes hs _ => .inl (hfree w List.mem_cons_self stamp hs), ih hrest ?_⟩
    intro w' hw' stamp' hs'
    obtain ⟨stamp, hs⟩ := exists_stamp w.secs
    rw [writeJsonConfig_backup hs ⟨_, stamp', hs', rfl⟩, if_neg]
    · exact hfree w' (List.mem_cons_of_mem w hw') stamp' hs'
    · intro hname
      have hstamp : stamp' = stamp := List.append_cancel_left hname
      have hsecs : w.secs = w'.secs := chronoFreeTimestamp_inj (by rw [hs, hs', hstamp])
      exact hnew (List.mem_map.mpr ⟨w', hw', hsecs.symm⟩)

end Run

/-- **The calls lose nothing** where each of them spares the backups that it finds; a single call
    keeps every backup exactly where it does. -/
theorem config_backups_kept (windows : Bool) (name : List Char) :
    (∀ ws d, AllSpare windows name ws d → ∀ content ∈ replaced windows name ws d,
      ∃ b, IsBackup name b ∧ run windows name ws d b = some content) ∧
    ∀ w d, Keeps name d (writeJsonConfig windows name w d).2 ↔ w.Spares name d :=
  ⟨fun _ _ h => replaced_kept h, fun _ _ => keeps_iff⟩

/-! ## 6. Two calls within a second -/

namespace OneSecond

def name : List Char := "opencode.json".toList

/-- The configuration of the user, and nothing else. -/
def original : List UInt8 := encode "\x7b\x7d".toList

def dir : Dir := Function.update (fun _ => none) name (some original)

/-- An install, and an uninstall in the same second. -/
def first : Write := ⟨1786838400, 7, "\x7b\"mcp\":\x7b\"irez\":1\x7d\x7d".toList, none⟩

def second : Write := ⟨1786838400, 8, "\x7b\"mcp\":\x7b\x7d\x7d".toList, none⟩

/-- The uninstall a second later. -/
def later : Write := { second with secs := 1786838401 }

theorem dir_backup {b : List Char} (hb : IsBackup name b) : dir b = none := by
  obtain ⟨_, stamp, _, rfl⟩ := hb
  exact Function.update_of_ne (fun h => name_ne_backupName name stamp h.symm) _ _

theorem first_ok : ∃ d, writeJsonConfig false name first dir = (.ok (), d) ∧
    d name = some (encode first.text) := writeJsonConfig_ok (by decide) rfl

/-- The first call replaces what the user had. -/
theorem original_replaced (ws : List Write) : original ∈ replaced false name (first :: ws) dir := by
  obtain ⟨d, hfirst, _⟩ := first_ok
  have hreplaces : first.replaces false name dir = some original := by
    unfold Write.replaces
    rw [hfirst]
    exact Function.update_self _ _ _
  rw [replaced, hreplaces]
  exact List.mem_cons_self

end OneSecond

open OneSecond in
/-- Where the uninstall comes a second later, the content that the install replaced is in a backup. -/
theorem config_backups_kept_later : AllSpare false name [first, later] dir ∧
    ∃ b, IsBackup name b ∧ run false name [first, later] dir b = some original := by
  have hspare : AllSpare false name [first, later] dir :=
    allSpare_of_seconds (by decide) fun w _ stamp hs => dir_backup ⟨w.secs, stamp, hs, rfl⟩
  exact ⟨hspare, (config_backups_kept false name).1 _ _ hspare _ (original_replaced [later])⟩

open OneSecond in
/-- **The first backup is gone**: no backup holds what the user had. -/
theorem original_lost : first.secs ≤ second.secs ∧ first.fault = none ∧ second.fault = none ∧
    original ∈ replaced false name [first, second] dir ∧
    ¬ ∃ b, IsBackup name b ∧ run false name [first, second] dir b = some original := by
  obtain ⟨stamp, hs⟩ := exists_stamp first.secs
  have hdir : dir name = some original := Function.update_self _ _ _
  obtain ⟨d, hfirst, hd⟩ := first_ok
  have hbackup : ∀ b, IsBackup name b → d b = if b = backupName name stamp then some original else none := by
    intro b hb
    have hafter : (writeJsonConfig false name first dir).2 b = _ := writeJsonConfig_backup hs hb
    rw [hfirst, dir_backup hb, hdir] at hafter
    exact hafter
  refine ⟨by decide, rfl, rfl, original_replaced [second], fun hlost => ?_⟩
  obtain ⟨b, hb, hcontent⟩ := hlost
  have hafter : (writeJsonConfig false name second d).2 b = _ := writeJsonConfig_backup hs hb
  rw [hd, hbackup b hb] at hafter
  rw [run, run, run, hfirst, hafter] at hcontent
  by_cases hname : b = backupName name stamp
  · rw [if_pos hname] at hcontent
    -- what is there now is what the first call wrote
    exact absurd (Option.some.inj hcontent) (by decide)
  · rw [if_neg hname, if_neg hname] at hcontent
    cases hcontent

end Irez.Installer.Directory
