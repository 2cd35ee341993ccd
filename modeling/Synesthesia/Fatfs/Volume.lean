/-
`ff.c`: the sector window of a mounted volume.

All metadata, and in the tiny configuration all partial sectors of files, are seen through
one window.  A changed window is written back when it moves, and a sector of the FAT to
every copy of the FAT.  What the volume holds is therefore the sectors of the disk with a
changed window laid over them.

The card behind `disk_read` and `disk_write` is part of the surroundings: any request may
fail.  A write that fails leaves anything in its sector; a read of one sector that fails
leaves the buffer as it was.
-/

import Mathlib.Data.BitVec
import Mathlib.Data.List.Basic

namespace Synesthesia.FatFs

abbrev Sector := BitVec 9 → BitVec 8

/-- Arithmetic of the type `DWORD`. -/
def dword (n : Nat) : Nat := n % 2 ^ 32

theorem dword_eq {n : Nat} (fits : n < 2 ^ 32) : dword n = n := Nat.mod_eq_of_lt fits

/-! ### The disk -/

structure Disk where
  sectors : Nat → Sector
  /-- How the requests to come end: well, or with this left behind by a write. -/
  faults : Nat → Option Sector

def Disk.next (disk : Disk) : Disk := { disk with faults := fun k => disk.faults (k + 1) }

def diskRead (disk : Disk) (sector count : Nat) : Option (List Sector) × Disk :=
  match disk.faults 0 with
  | none => (some ((List.range count).map fun i => disk.sectors (sector + i)), disk.next)
  | some _ => (none, disk.next)

def diskWrite (disk : Disk) (sector : Nat) (data : Sector) : Bool × Disk :=
  match disk.faults 0 with
  | none => (true, { disk.next with sectors := Function.update disk.sectors sector data })
  | some left => (false, { disk.next with sectors := Function.update disk.sectors sector left })

def Disk.Healthy (disk : Disk) : Prop := ∀ k, disk.faults k = none

/-! ### The file system object -/

inductive FsType where
  | none
  | fat12
  | fat16
  | fat32
  deriving DecidableEq

/-- What stays while a volume is mounted. -/
structure Geometry where
  fsType : FsType
  /-- Sectors per cluster. -/
  csize : Nat
  /-- Number of FAT copies. -/
  nFats : Nat
  id : Nat
  /-- Number of FAT entries. -/
  nFatent : Nat
  /-- Sectors per FAT. -/
  fsize : Nat
  /-- Entries of the root directory (FAT12/16). -/
  nRootdir : Nat
  fatbase : Nat
  /-- Root directory start sector (FAT32: cluster#). -/
  dirbase : Nat
  database : Nat

structure AllocInfo where
  lastClust : Nat
  freeClust : Nat
  fsiFlag : Bool

structure Fatfs extends Geometry where
  info : AllocInfo
  /-- Current directory (0: root dir). -/
  cdir : Nat
  /-- The window must be written back. -/
  wflag : Bool
  winsect : Nat
  win : Sector

structure Volume where
  fs : Fatfs
  disk : Disk

def mirrorFat (fsize : Nat) (win : Sector) : Nat → Nat → Disk → Disk
  | 0, _, disk => disk
  | copies + 1, wsect, disk =>
      mirrorFat fsize win copies (dword (wsect + fsize))
        (diskWrite disk (dword (wsect + fsize)) win).2

/-- A window in the FAT area goes to the other copies too, whether this works or not. -/
def reflectFat (fs : Fatfs) (disk : Disk) : Disk :=
  if fs.winsect < dword (fs.fatbase + fs.fsize) then
    mirrorFat fs.fsize fs.win (fs.nFats - 1) fs.winsect disk
  else disk

def writeBack (vol : Volume) : Bool × Volume :=
  if vol.fs.wflag then
    match diskWrite vol.disk vol.fs.winsect vol.fs.win with
    | (false, disk) => (false, { vol with disk := disk })
    | (true, disk) =>
        (true,
          { fs := { vol.fs with wflag := false }
            disk := reflectFat vol.fs disk })
  else (true, vol)

/-- Sector 0 only writes back. -/
def loadWindow (vol : Volume) (sector : Nat) : Bool × Volume :=
  if sector = 0 then (true, vol)
  else
    match diskRead vol.disk sector 1 with
    | (some data, disk) =>
        (true,
          { fs := { vol.fs with win := data.headD vol.fs.win, winsect := sector }
            disk := disk })
    | (none, disk) => (false, { vol with disk := disk })

/-- `move_window`: whether the window now shows the sector. -/
def moveWindow (vol : Volume) (sector : Nat) : Bool × Volume :=
  if vol.fs.winsect = sector then (true, vol)
  else
    match writeBack vol with
    | (true, vol) => loadWindow vol sector
    | (false, vol) => (false, vol)

/-! ### What a volume holds -/

/-- The sectors as the file system means them. -/
def Volume.view (vol : Volume) (sector : Nat) : Sector :=
  if vol.fs.wflag = true ∧ sector = vol.fs.winsect then vol.fs.win else vol.disk.sectors sector

def Geometry.fatBytes (geometry : Geometry) : Nat :=
  match geometry.fsType with
  | .none => 0
  | .fat12 => geometry.nFatent * 3 / 2 + geometry.nFatent % 2
  | .fat16 => geometry.nFatent * 2
  | .fat32 => geometry.nFatent * 4

/-- The FAT copies and the clusters lie one after the other within the range of `DWORD`. -/
structure Layout (geometry : Geometry) : Prop where
  mounted : geometry.fsType ≠ .none
  csize : ∃ k ≤ 7, geometry.csize = 2 ^ k
  nFats : 0 < geometry.nFats
  fatbase : 0 < geometry.fatbase
  entries : 2 < geometry.nFatent ∧ geometry.nFatent ≤ 2 ^ 28
  fat : geometry.fatBytes ≤ 512 * geometry.fsize
  database : geometry.fatbase + geometry.nFats * geometry.fsize ≤ geometry.database
  root : geometry.fsType ≠ .fat32 →
    geometry.fatbase + geometry.nFats * geometry.fsize ≤ geometry.dirbase ∧
      geometry.dirbase + geometry.nRootdir / 16 ≤ geometry.database ∧
      0 < geometry.nRootdir ∧ geometry.nRootdir % 16 = 0 ∧ geometry.nRootdir < 2 ^ 16
  fits : geometry.database + (geometry.nFatent - 2) * geometry.csize ≤ 2 ^ 32

/-- The copies of the FAT after the first. -/
def Geometry.InCopies (geometry : Geometry) (sector : Nat) : Prop :=
  geometry.fatbase + geometry.fsize ≤ sector ∧
    sector < geometry.fatbase + geometry.nFats * geometry.fsize

/-- The window shows its sector, and only sectors from the FAT on are changed. -/
structure Coherent (vol : Volume) : Prop where
  window : vol.fs.winsect ≠ 0 → vol.fs.win = vol.view vol.fs.winsect
  dirty : vol.fs.wflag = true → vol.fs.fatbase ≤ vol.fs.winsect
  range : vol.fs.winsect < 2 ^ 32

/-- Only the window and the copies of the FAT have moved. -/
structure Moves (before after : Volume) : Prop where
  geometry : after.fs.toGeometry = before.fs.toGeometry
  info : after.fs.info = before.fs.info
  cdir : after.fs.cdir = before.fs.cdir
  view : ∀ sector, ¬ before.fs.InCopies sector → after.view sector = before.view sector
  coherent : Coherent after
  healthy : before.disk.Healthy → after.disk.Healthy

theorem Moves.refl {vol : Volume} (coherent : Coherent vol) : Moves vol vol where
  geometry := rfl
  info := rfl
  cdir := rfl
  view := fun _ _ => rfl
  coherent := coherent
  healthy := id

theorem Moves.trans {first second third : Volume} (earlier : Moves first second)
    (later : Moves second third) : Moves first third where
  geometry := later.geometry.trans earlier.geometry
  info := later.info.trans earlier.info
  cdir := later.cdir.trans earlier.cdir
  view := by
    intro sector other
    rw [← earlier.view sector other]
    refine later.view sector ?_
    rw [earlier.geometry]
    exact other
  coherent := later.coherent
  healthy := fun well => later.healthy (earlier.healthy well)

/-! ### Requests -/

theorem diskRead_next (disk : Disk) (sector count : Nat) :
    (diskRead disk sector count).2 = disk.next := by
  rw [diskRead]
  split <;> rfl

theorem Disk.Healthy.next {disk : Disk} (well : disk.Healthy) : disk.next.Healthy :=
  fun k => well (k + 1)

theorem diskRead_some {disk disk' : Disk} {sector count : Nat} {data : List Sector}
    (answered : diskRead disk sector count = (some data, disk')) :
    data = (List.range count).map (fun i => disk.sectors (sector + i)) ∧ disk' = disk.next := by
  rw [diskRead] at answered
  split at answered
  · rw [Prod.mk.injEq, Option.some_inj] at answered
    exact ⟨answered.1.symm, answered.2.symm⟩
  · cases answered

theorem Disk.Healthy.diskRead_isSome {disk : Disk} (well : disk.Healthy) (sector count : Nat) :
    (diskRead disk sector count).1.isSome = true := by
  rw [diskRead, well 0]
  rfl

theorem Disk.Healthy.diskWrite {disk : Disk} (well : disk.Healthy) (sector : Nat) (data : Sector) :
    (diskWrite disk sector data).1 = true ∧ (diskWrite disk sector data).2.Healthy := by
  rw [FatFs.diskWrite, well 0]
  exact ⟨rfl, well.next⟩

theorem diskWrite_other (disk : Disk) (data : Sector) {sector other : Nat}
    (different : other ≠ sector) :
    (diskWrite disk sector data).2.sectors other = disk.sectors other := by
  rw [diskWrite]
  split
  · exact Function.update_of_ne different _ _
  · exact Function.update_of_ne different _ _

theorem diskWrite_same {disk disk' : Disk} {data : Sector} {sector : Nat}
    (written : diskWrite disk sector data = (true, disk')) : disk'.sectors sector = data := by
  rw [diskWrite] at written
  split at written
  · rw [Prod.mk.injEq] at written
    rw [← written.2]
    exact Function.update_self _ _ _
  · cases written

/-! ### Copies of the FAT -/

theorem mirrorFat_healthy {fsize : Nat} {win : Sector} {copies wsect : Nat} {disk : Disk}
    (well : disk.Healthy) : (mirrorFat fsize win copies wsect disk).Healthy := by
  induction copies generalizing wsect disk with
  | zero => exact well
  | succ copies ih => exact ih (well.diskWrite _ _).2

theorem mirrorFat_other {fsize last : Nat} {win : Sector} {copies wsect : Nat} {disk : Disk}
    (fits : wsect + copies * fsize ≤ last) (small : last < 2 ^ 32) {sector : Nat}
    (other : ¬ (wsect + fsize ≤ sector ∧ sector ≤ last)) :
    (mirrorFat fsize win copies wsect disk).sectors sector = disk.sectors sector := by
  induction copies generalizing wsect disk with
  | zero => rfl
  | succ copies ih =>
      have room : wsect + fsize + copies * fsize ≤ last := by
        rw [Nat.succ_mul] at fits
        omega
      have next : dword (wsect + fsize) = wsect + fsize := dword_eq (by omega)
      rw [mirrorFat, next, ih room fun within => other ⟨by omega, within.2⟩]
      exact diskWrite_other _ _ fun same => other ⟨same.ge, by omega⟩

/-! ### Moving the window -/

section Window

variable {vol : Volume}

theorem Layout.fatEnd {geometry : Geometry} (layout : Layout geometry) :
    geometry.fatbase + geometry.fsize ≤ geometry.database ∧ geometry.database < 2 ^ 32 := by
  have database := layout.database
  have one := Nat.le_mul_of_pos_left geometry.fsize layout.nFats
  obtain ⟨power, -, csize⟩ := layout.csize
  have positive : 0 < (geometry.nFatent - 2) * geometry.csize := by
    rw [csize]
    exact Nat.mul_pos (by have := layout.entries; omega) (Nat.two_pow_pos power)
  have fits := layout.fits
  omega

theorem view_clean (clean : vol.fs.wflag = false) (sector : Nat) :
    vol.view sector = vol.disk.sectors sector := by
  rw [Volume.view, clean, if_neg (fun changed => Bool.false_ne_true changed.1)]

theorem view_other (sector : Nat) (other : sector ≠ vol.fs.winsect) :
    vol.view sector = vol.disk.sectors sector :=
  if_neg fun same => other same.2

theorem view_window (dirty : vol.fs.wflag = true) : vol.view vol.fs.winsect = vol.fs.win :=
  if_pos ⟨dirty, rfl⟩

theorem reflectFat_healthy {fs : Fatfs} {disk : Disk} (well : disk.Healthy) :
    (reflectFat fs disk).Healthy := by
  rw [reflectFat]
  split
  · exact mirrorFat_healthy well
  · exact well

theorem reflectFat_other {fs : Fatfs} (layout : Layout fs.toGeometry)
    (inside : fs.fatbase ≤ fs.winsect) (disk : Disk) {sector : Nat} (other : ¬ fs.InCopies sector) :
    (reflectFat fs disk).sectors sector = disk.sectors sector := by
  obtain ⟨fatEnd, small⟩ := layout.fatEnd
  have database := layout.database
  obtain ⟨copies, same⟩ := Nat.exists_eq_add_of_le' layout.nFats
  rw [reflectFat, dword_eq (by omega)]
  split
  case isFalse => rfl
  case isTrue inFat =>
    have last : fs.winsect + (fs.nFats - 1) * fs.fsize < fs.fatbase + fs.nFats * fs.fsize := by
      rw [same, Nat.add_sub_cancel, Nat.succ_mul]
      omega
    refine mirrorFat_other (Nat.le_refl _) (by omega) fun within => other ⟨?_, ?_⟩
    · omega
    · omega

theorem reflectFat_window {fs : Fatfs} (layout : Layout fs.toGeometry)
    (inside : fs.fatbase ≤ fs.winsect) (disk : Disk) :
    (reflectFat fs disk).sectors fs.winsect = disk.sectors fs.winsect := by
  obtain ⟨fatEnd, small⟩ := layout.fatEnd
  by_cases inFat : fs.winsect < fs.fatbase + fs.fsize
  · exact reflectFat_other layout inside disk fun within => by
      have after := within.1
      omega
  · rw [reflectFat, dword_eq (by omega), if_neg inFat]

theorem writeBack_moves (layout : Layout vol.fs.toGeometry) (coherent : Coherent vol) :
    Moves vol (writeBack vol).2 ∧
      ((writeBack vol).1 = true → (writeBack vol).2.fs.wflag = false) ∧
      (vol.disk.Healthy → (writeBack vol).1 = true) := by
  cases dirty : vol.fs.wflag with
  | false =>
      rw [writeBack, dirty]
      exact ⟨.refl coherent, fun _ => dirty, fun _ => rfl⟩
  | true =>
      have kept {sector : Nat} (other : sector ≠ vol.fs.winsect) :=
        diskWrite_other vol.disk vol.fs.win other
      have well (healthy : vol.disk.Healthy) := healthy.diskWrite vol.fs.winsect vol.fs.win
      have inside := coherent.dirty dirty
      rw [writeBack, dirty, if_pos rfl]
      rcases written : diskWrite vol.disk vol.fs.winsect vol.fs.win with ⟨_ | _, disk⟩
      · rw [written] at kept well
        have same (sector : Nat) :
            Volume.view { vol with disk := disk } sector = vol.view sector := by
          by_cases here : sector = vol.fs.winsect
          · rw [here]
            exact (view_window dirty :
              Volume.view { vol with disk := disk } vol.fs.winsect = _).trans
                (view_window dirty).symm
          · exact ((view_other sector here :
              Volume.view { vol with disk := disk } sector = _).trans (kept here)).trans
                (view_other sector here).symm
        refine ⟨⟨rfl, rfl, rfl, fun sector _ => same sector,
          ⟨fun some => ?_, coherent.dirty, coherent.range⟩,
          fun healthy => (well healthy).2⟩, nofun, fun healthy => (well healthy).1⟩
        rw [same]
        exact coherent.window some
      · rw [written] at kept well
        have stored := diskWrite_same written
        have clean (sector : Nat) : Volume.view
            { fs := { vol.fs with wflag := false }, disk := reflectFat vol.fs disk } sector =
              (reflectFat vol.fs disk).sectors sector := view_clean rfl sector
        have window := (clean vol.fs.winsect).trans (reflectFat_window layout inside disk)
        refine ⟨⟨rfl, rfl, rfl, fun sector other => ?_, ⟨fun _ => ?_, nofun, coherent.range⟩,
          fun healthy => ?_⟩,
          fun _ => rfl, fun _ => rfl⟩
        · by_cases here : sector = vol.fs.winsect
          · rw [here, window, stored, view_window dirty]
          · rw [clean, reflectFat_other layout inside disk other, view_other sector here]
            exact kept here
        · exact (window.trans stored).symm
        · exact reflectFat_healthy (well healthy).2

theorem next_moves (coherent : Coherent vol) :
    Moves vol { vol with disk := vol.disk.next } where
  geometry := rfl
  info := rfl
  cdir := rfl
  view := fun _ _ => rfl
  coherent := ⟨coherent.window, coherent.dirty, coherent.range⟩
  healthy := Disk.Healthy.next

theorem loadWindow_moves (coherent : Coherent vol) (clean : vol.fs.wflag = false) {sector : Nat}
    (some : sector ≠ 0) (range : sector < 2 ^ 32) :
    Moves vol (loadWindow vol sector).2 ∧
      ((loadWindow vol sector).1 = true → (loadWindow vol sector).2.fs.winsect = sector) ∧
      (vol.disk.Healthy → (loadWindow vol sector).1 = true) := by
  have works (healthy : vol.disk.Healthy) := healthy.diskRead_isSome sector 1
  have next := diskRead_next vol.disk sector 1
  rw [loadWindow, if_neg some]
  rcases read : diskRead vol.disk sector 1 with ⟨_ | data, disk⟩
  · rw [read] at works next
    obtain rfl : disk = vol.disk.next := next
    exact ⟨next_moves coherent, nofun, fun healthy => absurd (works healthy) nofun⟩
  · obtain ⟨rfl, rfl⟩ := diskRead_some read
    have loaded (probe : Nat) : Volume.view
        { fs := { vol.fs with win := vol.disk.sectors sector, winsect := sector }
          disk := vol.disk.next } probe = vol.disk.sectors probe := by
      rw [Volume.view, if_neg fun changed => Bool.false_ne_true (clean.symm.trans changed.1)]
      rfl
    refine ⟨⟨rfl, rfl, rfl, fun probe _ => ?_, ⟨fun _ => ?_, fun dirty => ?_, range⟩,
      Disk.Healthy.next⟩,
      fun _ => rfl, fun _ => rfl⟩
    · exact (loaded probe).trans (view_clean clean probe).symm
    · exact (loaded sector).symm
    · exact absurd (clean.symm.trans dirty) Bool.false_ne_true

/-- `move_window` shows the sector or fails, and changes nothing of what the volume holds. -/
theorem moveWindow_moves (layout : Layout vol.fs.toGeometry) (coherent : Coherent vol)
    {sector : Nat} (some : sector ≠ 0) (range : sector < 2 ^ 32) :
    Moves vol (moveWindow vol sector).2 ∧
      ((moveWindow vol sector).1 = true → (moveWindow vol sector).2.fs.winsect = sector) ∧
      (vol.disk.Healthy → (moveWindow vol sector).1 = true) := by
  rw [moveWindow]
  split
  case isTrue here => exact ⟨.refl coherent, fun _ => here, fun _ => rfl⟩
  case isFalse away =>
    obtain ⟨moves, clean, works⟩ := writeBack_moves layout coherent
    rcases back : writeBack vol with ⟨_ | _, written⟩
    · rw [back] at moves works
      exact ⟨moves, nofun, works⟩
    · rw [back] at moves clean
      obtain ⟨loads, shows', loadWorks⟩ := loadWindow_moves moves.coherent (clean rfl) some range
      exact ⟨moves.trans loads, shows', fun healthy => loadWorks (moves.healthy healthy)⟩

theorem moveWindow_win (layout : Layout vol.fs.toGeometry) (coherent : Coherent vol)
    {sector : Nat} (some : sector ≠ 0) (range : sector < 2 ^ 32) (other : ¬ vol.fs.InCopies sector)
    (moved : (moveWindow vol sector).1 = true) :
    (moveWindow vol sector).2.fs.win = vol.view sector := by
  obtain ⟨moves, shows', -⟩ := moveWindow_moves layout coherent some range
  have here := shows' moved
  have window := moves.coherent.window (by rw [here]; exact some)
  rw [window, here]
  exact moves.view sector other

end Window

end Synesthesia.FatFs
