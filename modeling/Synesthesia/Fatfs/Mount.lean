/-
`chk_mounted` of `ff.c`: how a volume is found and its boot record is read.

The path has no drive number here, so that it is always volume 0 with its first partition.
-/

import Synesthesia.Fatfs.ReadFile

namespace Synesthesia.FatFs

/-! ### The boot record -/

def bpbFatSz (win : Sector) : Nat :=
  if ldWord win 22 = 0 then (ldDword win 36).toNat else (ldWord win 22).toNat

def bpbTotSec (win : Sector) : Nat :=
  if ldWord win 19 = 0 then (ldDword win 32).toNat else (ldWord win 19).toNat

def sysSectors (win : Sector) : Nat :=
  dword (dword ((ldWord win 14).toNat + dword (bpbFatSz win * (byteAt win 16).toNat)) +
    (ldWord win 17).toNat / 16)

def numClusters (win : Sector) : Nat := (bpbTotSec win - sysSectors win) / (byteAt win 13).toNat

def minFat16 : Nat := 4086
def minFat32 : Nat := 65526

def fatSubType (clusters : Nat) : FsType :=
  if minFat32 ≤ clusters then .fat32 else if minFat16 ≤ clusters then .fat16 else .fat12

def bpbGeometry (win : Sector) (bsect id : Nat) : Geometry :=
  { fsType := fatSubType (numClusters win)
    csize := (byteAt win 13).toNat
    nFats := (byteAt win 16).toNat
    id := id
    nFatent := dword (numClusters win + 2)
    fsize := bpbFatSz win
    nRootdir := (ldWord win 17).toNat
    fatbase := dword (bsect + (ldWord win 14).toNat)
    dirbase :=
      if fatSubType (numClusters win) = .fat32 then (ldDword win 44).toNat
      else
        dword (dword (bsect + (ldWord win 14).toNat) +
          dword (bpbFatSz win * (byteAt win 16).toNat))
    database := dword (bsect + sysSectors win) }

def requiredFat (geometry : Geometry) : Nat :=
  match geometry.fsType with
  | .none => 0
  | .fat12 => dword (geometry.nFatent * 3) / 2 + geometry.nFatent % 2
  | .fat16 => dword (geometry.nFatent * 2)
  | .fat32 => dword (geometry.nFatent * 4)

/-- The checks between the boot record and the file system object. -/
def bpbRefused (win : Sector) (geometry : Geometry) : Bool :=
  ldWord win 11 != 512 ||
  (geometry.nFats != 1 && geometry.nFats != 2) ||
  (geometry.csize == 0 || (geometry.csize &&& geometry.csize - 1) != 0) ||
  (ldWord win 17).toNat % 16 != 0 ||
  ldWord win 14 == 0 ||
  decide (bpbTotSec win < sysSectors win) ||
  numClusters win == 0 ||
  (if geometry.fsType = .fat32 then ldWord win 17 != 0 else ldWord win 17 == 0) ||
  decide (geometry.fsize < dword (requiredFat geometry + 511) / 512)

/-! ### Mounting -/

inductive BootRecord where
  /-- FAT-VBR. -/
  | fat
  /-- Valid BR but not FAT. -/
  | other
  /-- Not a BR. -/
  | none
  | diskError
  deriving DecidableEq

def bootRecord (win : Sector) : BootRecord :=
  if ldWord win 510 ≠ 0xAA55 then .none
  else if ldDword win 54 &&& 0xFFFFFF = 0x544146 then .fat
  else if ldDword win 82 &&& 0xFFFFFF = 0x544146 then .fat
  else .other

def checkFs (vol : Volume) (sect : Nat) : BootRecord × Volume :=
  match diskRead vol.disk sect 1 with
  | (.none, disk) => (.diskError, { vol with disk := disk })
  | (some data, disk) =>
      (bootRecord (data.headD vol.fs.win),
        { fs := { vol.fs with win := data.headD vol.fs.win }, disk := disk })

/-- The FAT-VBR is in sector 0, or where the first entry of the partition table says. -/
def findBoot (vol : Volume) : BootRecord × Nat × Volume :=
  match checkFs vol 0 with
  | (.other, vol) =>
      if byteAt vol.fs.win (446 + 4) ≠ 0 then
        let bsect := (ldDword vol.fs.win (446 + 8)).toNat
        let (record, vol) := checkFs vol bsect
        (record, bsect, vol)
      else (.other, 0, vol)
  | (record, vol) => (record, 0, vol)

/-- Initialize cluster allocation information. -/
def freshInfo (vol : Volume) : Volume :=
  { vol with
    fs := { vol.fs with info := { vol.fs.info with lastClust := 0, freeClust := 0xFFFFFFFF } } }

/-- Get fsinfo if available. -/
def loadFsInfo (vol : Volume) (bsect : Nat) : Volume :=
  let info := { vol.fs.info with fsiFlag := false }
  match diskRead vol.disk (dword (bsect + (ldWord vol.fs.win 48).toNat)) 1 with
  | (.none, disk) =>
      { fs := { vol.fs with info := info }
        disk := disk }
  | (some data, disk) =>
      let win := data.headD vol.fs.win
      { fs :=
          { vol.fs with
            win := win
            info :=
              if ldWord win 510 = 0xAA55 ∧ ldDword win 0 = 0x41615252 ∧
                  ldDword win 484 = 0x61417272 then
                { info with
                  lastClust := (ldDword win 492).toNat
                  freeClust := (ldDword win 488).toNat }
              else info }
        disk := disk }

def mountBoot (vol : Volume) (bsect fsid : Nat) : FResult × Volume :=
  let geometry := bpbGeometry vol.fs.win bsect ((fsid + 1) % 2 ^ 16)
  if bpbRefused vol.fs.win geometry then (.noFilesystem, vol)
  else
    let vol :=
      if geometry.fsType = .fat32 then loadFsInfo (freshInfo vol) bsect else freshInfo vol
    (.ok,
      { vol with
        fs :=
          { toGeometry := geometry
            info := vol.fs.info
            cdir := 0
            wflag := false
            winsect := 0
            win := vol.fs.win } })

/-- Search FAT partition on the drive, and initialize the file system object. -/
def mountVolume (vol : Volume) (fsid : Nat) : FResult × Volume :=
  match findBoot vol with
  | (.fat, bsect, vol) => mountBoot vol bsect fsid
  | (.diskError, _, vol) => (.diskErr, vol)
  | (_, _, vol) => (.noFilesystem, vol)

/-- `chk_mounted` for volume 0; `disk_status` and `disk_initialize` are requests like the
others, and the card is never write protected. -/
def chkMounted (vol : Volume) (fsid : Nat) : FResult × Volume :=
  let ready := vol.disk.faults 0 = .none
  let checked : Volume := { vol with disk := vol.disk.next }
  if vol.fs.fsType ≠ .none ∧ ready then (.ok, checked)
  else
    let vol : Volume :=
      { if vol.fs.fsType ≠ .none then checked else vol with
        fs := { vol.fs with fsType := .none } }
    let started := vol.disk.faults 0 = .none
    let vol : Volume := { vol with disk := vol.disk.next }
    if started then mountVolume vol fsid else (.notReady, vol)

/-! ### What is accepted -/

/-- The volume ends within the range of `DWORD`, and it and its FAT have a possible size. -/
structure Credible (win : Sector) (bsect : Nat) : Prop where
  fits : bsect + bpbTotSec win ≤ 2 ^ 32
  totSec : bpbTotSec win < 2 ^ 28
  fatSz : bpbFatSz win < 2 ^ 30

theorem powerOfTwo (b : Fin 256) (some : b.val ≠ 0) (one : b.val &&& b.val - 1 = 0) :
    ∃ k : Fin 8, b.val = 2 ^ k.val := by
  revert b
  decide +kernel

theorem fatSubType_mounted (clusters : Nat) : fatSubType clusters ≠ .none := by
  rw [fatSubType]
  split
  · nofun
  · split <;> nofun

theorem sysSectors_eq {win : Sector} (fatSz : bpbFatSz win < 2 ^ 30)
    (nFats : (byteAt win 16).toNat ≤ 2) :
    sysSectors win = (ldWord win 14).toNat + bpbFatSz win * (byteAt win 16).toNat +
      (ldWord win 17).toNat / 16 := by
  have reserved := (ldWord win 14).isLt
  have root := (ldWord win 17).isLt
  have area : bpbFatSz win * (byteAt win 16).toNat ≤ bpbFatSz win * 2 :=
    Nat.mul_le_mul_left _ nFats
  rw [sysSectors, dword_eq (show bpbFatSz win * (byteAt win 16).toNat < 2 ^ 32 by omega),
    dword_eq (show (ldWord win 14).toNat + bpbFatSz win * (byteAt win 16).toNat < 2 ^ 32 by omega),
    dword_eq (by omega)]

theorem requiredFat_eq {geometry : Geometry} (entries : geometry.nFatent ≤ 2 ^ 28) :
    requiredFat geometry = geometry.fatBytes := by
  rw [requiredFat, Geometry.fatBytes]
  cases geometry.fsType with
  | none => rfl
  | fat12 => simp only [dword_eq (show geometry.nFatent * 3 < 2 ^ 32 by omega)]
  | fat16 => exact dword_eq (by omega)
  | fat32 => exact dword_eq (by omega)

/-- A boot record that passes the checks describes a sound layout. -/
theorem bpb_layout {win : Sector} {bsect id : Nat} (credible : Credible win bsect)
    (accepted : bpbRefused win (bpbGeometry win bsect id) = false) :
    Layout (bpbGeometry win bsect id) := by
  obtain ⟨fits, totSec, fatSz⟩ := credible
  simp only [bpbRefused, Bool.or_eq_false_iff, Bool.and_eq_false_iff, bne_eq_false_iff_eq,
    beq_eq_false_iff_ne, decide_eq_false_iff_not, Nat.not_lt] at accepted
  obtain ⟨⟨⟨⟨⟨⟨⟨⟨-, nFats⟩, csize, power⟩, aligned⟩, nrsv⟩, system⟩, clusters⟩, root⟩, fat⟩ :=
    accepted
  dsimp only [bpbGeometry] at nFats csize power
  have size := (byteAt win 13).isLt
  obtain ⟨k, exact'⟩ := powerOfTwo ⟨(byteAt win 13).toNat, size⟩ csize power
  dsimp only at exact'
  have copies : (byteAt win 16).toNat ≤ 2 ∧ 0 < (byteAt win 16).toNat := by omega
  have sysEq := sysSectors_eq fatSz copies.1
  have reserved : 0 < (ldWord win 14).toNat := by
    refine Nat.pos_of_ne_zero fun none => nrsv ?_
    rw [← BitVec.toNat_inj]
    exact none
  have data : numClusters win * (byteAt win 13).toNat ≤ bpbTotSec win - sysSectors win :=
    Nat.div_mul_le_self _ _
  have fewer : numClusters win ≤ bpbTotSec win - sysSectors win := Nat.div_le_self _ _
  have some : 0 < numClusters win := Nat.pos_of_ne_zero clusters
  have entries : dword (numClusters win + 2) = numClusters win + 2 := dword_eq (by omega)
  have database : dword (bsect + sysSectors win) = bsect + sysSectors win := dword_eq (by omega)
  have fatbase : dword (bsect + (ldWord win 14).toNat) = bsect + (ldWord win 14).toNat :=
    dword_eq (by omega)
  have range : (bpbGeometry win bsect id).nFatent ≤ 2 ^ 28 := by
    dsimp only [bpbGeometry]
    omega
  rw [requiredFat_eq range] at fat
  have needed : (bpbGeometry win bsect id).fatBytes ≤ 2 ^ 30 := by
    have last := range
    rw [Geometry.fatBytes]
    split <;> omega
  rw [dword_eq (by omega)] at fat
  refine
    { mounted := fatSubType_mounted _
      csize := ⟨k.val, by omega, exact'⟩
      nFats := copies.2
      fatbase := ?_
      entries := ⟨?_, range⟩
      fat := by omega
      database := ?_
      root := ?_
      fits := ?_ }
  · dsimp only [bpbGeometry]
    omega
  · dsimp only [bpbGeometry]
    omega
  · dsimp only [bpbGeometry]
    rw [fatbase, database, sysEq, Nat.mul_comm (byteAt win 16).toNat]
    omega
  · intro other
    rw [if_neg other, beq_eq_false_iff_ne] at root
    have some : (ldWord win 17).toNat ≠ 0 := fun none => root (BitVec.toNat_inj.mp none)
    have range := (ldWord win 17).isLt
    dsimp only [bpbGeometry] at other ⊢
    rw [if_neg other, fatbase, database, sysEq, Nat.mul_comm (byteAt win 16).toNat,
      dword_eq (show bpbFatSz win * (byteAt win 16).toNat < 2 ^ 32 by omega), dword_eq (by omega)]
    omega
  · dsimp only [bpbGeometry]
    rw [entries, database, Nat.add_sub_cancel]
    omega

/-! ### The volume that is found -/

/-- Where the boot record is looked for. -/
def bootSector (disk : Disk) : Nat :=
  if bootRecord (disk.sectors 0) = .fat then 0 else (ldDword (disk.sectors 0) 454).toNat

/-- Mounting only reads. -/
structure OnlyReads (before after : Disk) : Prop where
  sectors : after.sectors = before.sectors
  healthy : before.Healthy → after.Healthy

theorem OnlyReads.trans {first second third : Disk} (earlier : OnlyReads first second)
    (later : OnlyReads second third) : OnlyReads first third :=
  ⟨later.sectors.trans earlier.sectors, fun well => later.healthy (earlier.healthy well)⟩

theorem diskRead_one {disk disk' : Disk} {sector : Nat} {data : List Sector}
    (answered : diskRead disk sector 1 = (some data, disk')) :
    data = [disk.sectors sector] ∧ disk' = disk.next := diskRead_some answered

theorem checkFs_reads (vol : Volume) (sect : Nat) :
    OnlyReads vol.disk (checkFs vol sect).2.disk ∧
      ((checkFs vol sect).1 = .diskError ∨
        (checkFs vol sect).1 = bootRecord (vol.disk.sectors sect) ∧
          (checkFs vol sect).2.fs.win = vol.disk.sectors sect) := by
  have next := diskRead_next vol.disk sect 1
  rw [checkFs]
  rcases read : diskRead vol.disk sect 1 with ⟨_ | data, disk⟩
  · rw [read] at next
    obtain rfl : disk = vol.disk.next := next
    exact ⟨⟨rfl, Disk.Healthy.next⟩, .inl rfl⟩
  · obtain ⟨rfl, rfl⟩ := diskRead_one read
    exact ⟨⟨rfl, Disk.Healthy.next⟩, .inr ⟨rfl, rfl⟩⟩

theorem findBoot_reads (vol : Volume) :
    OnlyReads vol.disk (findBoot vol).2.2.disk ∧
      ((findBoot vol).1 = .fat → (findBoot vol).2.1 = bootSector vol.disk ∧
        (findBoot vol).2.2.fs.win = vol.disk.sectors (bootSector vol.disk)) := by
  obtain ⟨first, answer⟩ := checkFs_reads vol 0
  rw [findBoot]
  generalize checkFs vol 0 = checked at first answer ⊢
  obtain ⟨record, vol'⟩ := checked
  dsimp only at first answer
  cases record with
  | fat =>
      obtain ⟨same, win⟩ := answer.resolve_left nofun
      refine ⟨first, fun _ => ?_⟩
      rw [bootSector, ← same, if_pos rfl]
      exact ⟨rfl, win⟩
  | other =>
      obtain ⟨same, win⟩ := answer.resolve_left nofun
      obtain ⟨second, answer'⟩ := checkFs_reads vol' (ldDword vol'.fs.win 454).toNat
      dsimp only
      split
      case isTrue listed =>
        refine ⟨first.trans second, fun again => ?_⟩
        obtain ⟨-, win'⟩ := answer'.resolve_left fun failed => by
          rw [failed] at again
          cases again
        rw [bootSector, ← same, if_neg nofun, ← win, ← first.sectors]
        exact ⟨rfl, win'⟩
      case isFalse unlisted => exact ⟨first, nofun⟩
  | none => exact ⟨first, nofun⟩
  | diskError => exact ⟨first, nofun⟩

theorem loadFsInfo_reads (vol : Volume) (bsect : Nat) :
    OnlyReads vol.disk (loadFsInfo vol bsect).disk := by
  have next := diskRead_next vol.disk (dword (bsect + (ldWord vol.fs.win 48).toNat)) 1
  rw [loadFsInfo]
  generalize diskRead vol.disk (dword (bsect + (ldWord vol.fs.win 48).toNat)) 1 = read at next ⊢
  obtain ⟨_ | data, disk⟩ := read
  all_goals
    obtain rfl : disk = vol.disk.next := next
    exact ⟨rfl, Disk.Healthy.next⟩

/-- What mounting leaves: a sound layout over the disk as it was, and an empty window. -/
structure Mounted (disk : Disk) (vol : Volume) : Prop where
  layout : Layout vol.fs.toGeometry
  wflag : vol.fs.wflag = false
  winsect : vol.fs.winsect = 0
  reads : OnlyReads disk vol.disk

theorem Mounted.coherent {disk : Disk} {vol : Volume} (mounted : Mounted disk vol) :
    Coherent vol where
  window := fun some => absurd mounted.winsect some
  dirty := fun changed => absurd (mounted.wflag.symm.trans changed) Bool.false_ne_true
  range := by
    rw [mounted.winsect]
    decide

theorem mountBoot_mounted {vol : Volume} {bsect fsid : Nat}
    (credible : Credible vol.fs.win bsect) (accepted : (mountBoot vol bsect fsid).1 = .ok) :
    Mounted vol.disk (mountBoot vol bsect fsid).2 := by
  rw [mountBoot] at accepted ⊢
  dsimp only at accepted ⊢
  split at accepted
  case isTrue refused => cases accepted
  case isFalse passed =>
    rw [if_neg passed]
    refine ⟨bpb_layout credible (Bool.eq_false_iff.mpr passed), rfl, rfl, ?_⟩
    split
    case isTrue fat32 => exact loadFsInfo_reads (freshInfo vol) bsect
    case isFalse other => exact ⟨rfl, id⟩

/-- A volume in use, or one whose disk `chk_mounted` may mount. -/
structure Ready (vol : Volume) : Prop where
  kept : vol.fs.fsType ≠ .none → vol.disk.faults 0 = .none →
    Layout vol.fs.toGeometry ∧ Coherent vol
  anew : vol.fs.fsType = .none ∨ vol.disk.faults 0 ≠ .none →
    Credible (vol.disk.sectors (bootSector vol.disk)) (bootSector vol.disk)

theorem mountVolume_mounted {vol : Volume} {fsid : Nat}
    (credible : Credible (vol.disk.sectors (bootSector vol.disk)) (bootSector vol.disk))
    (accepted : (mountVolume vol fsid).1 = .ok) : Mounted vol.disk (mountVolume vol fsid).2 := by
  obtain ⟨reads, fat⟩ := findBoot_reads vol
  rw [mountVolume] at accepted ⊢
  generalize findBoot vol = found at reads fat accepted ⊢
  obtain ⟨record, bsect, vol'⟩ := found
  dsimp only at reads fat
  cases record with
  | fat =>
      obtain ⟨here, win⟩ := fat rfl
      obtain rfl : bsect = bootSector vol.disk := here
      have mounted := mountBoot_mounted (win ▸ credible) accepted
      exact { mounted with reads := reads.trans mounted.reads }
  | other | none | diskError => cases accepted

/-- Once `chk_mounted` accepts, the volume has a sound layout and a coherent window. -/
theorem chkMounted_ready {vol : Volume} {fsid : Nat} (ready : Ready vol)
    (accepted : (chkMounted vol fsid).1 = .ok) :
    Layout (chkMounted vol fsid).2.fs.toGeometry ∧ Coherent (chkMounted vol fsid).2 ∧
      (vol.disk.Healthy → (chkMounted vol fsid).2.disk.Healthy) := by
  rw [chkMounted] at accepted ⊢
  dsimp only at accepted ⊢
  split at accepted
  case isTrue inUse =>
    rw [if_pos inUse]
    obtain ⟨layout, coherent⟩ := ready.kept inUse.1 inUse.2
    exact ⟨layout, (next_moves coherent).coherent, Disk.Healthy.next⟩
  case isFalse away =>
    rw [if_neg away]
    have credible := ready.anew ((not_and_or.mp away).imp_left not_not.mp)
    generalize start : (if vol.fs.fsType ≠ .none then { vol with disk := vol.disk.next } else vol) =
      before at accepted ⊢
    have same : before.disk.sectors = vol.disk.sectors ∧
        (vol.disk.Healthy → before.disk.Healthy) := by
      rw [← start]
      split
      · exact ⟨rfl, Disk.Healthy.next⟩
      · exact ⟨rfl, id⟩
    split at accepted
    case isFalse failed => cases accepted
    case isTrue started =>
      rw [if_pos started]
      rw [bootSector, ← same.1] at credible
      have mounted := @mountVolume_mounted
        { fs := { vol.fs with fsType := .none }, disk := before.disk.next } fsid credible accepted
      exact ⟨mounted.layout, mounted.coherent, fun healthy =>
        mounted.reads.healthy (same.2 healthy).next⟩

theorem cluster_sector {geometry : Geometry} (layout : Layout geometry) {clst k : Nat}
    (valid : 2 ≤ clst) (inside : clst < geometry.nFatent) (place : k < geometry.csize) :
    clust2sect geometry clst + k = geometry.database + ((clst - 2) * geometry.csize + k) ∧
      (clst - 2) * geometry.csize + k < (geometry.nFatent - 2) * geometry.csize := by
  refine ⟨by rw [clust2sect_eq layout valid inside, Nat.add_assoc], ?_⟩
  calc (clst - 2) * geometry.csize + k
      < (clst - 2) * geometry.csize + geometry.csize := Nat.add_lt_add_left place _
    _ = (clst - 2 + 1) * geometry.csize := (Nat.succ_mul _ _).symm
    _ ≤ (geometry.nFatent - 2) * geometry.csize := Nat.mul_le_mul_right _ (by omega)

theorem place_unique {size first second j k : Nat} (before : j < size) (before' : k < size)
    (same : first * size + j = second * size + k) : first = second ∧ j = k := by
  have quotient (n : Nat) {place : Nat} (small : place < size) : (n * size + place) / size = n := by
    rw [Nat.mul_comm, Nat.mul_add_div (Nat.zero_lt_of_lt small), Nat.div_eq_of_lt small,
      Nat.add_zero]
  have clusters : first = second := by
    rw [← quotient first before, same, quotient second before']
  rw [clusters] at same
  exact ⟨clusters, Nat.add_left_cancel same⟩

/-- On a volume that `chk_mounted` accepts, the sectors of the clusters are behind the file
allocation tables and the root directory, within the range of `DWORD`, and no two clusters
have one in common. -/
theorem clusters_apart {vol : Volume} {fsid : Nat} (ready : Ready vol)
    (accepted : (chkMounted vol fsid).1 = .ok) :
    let geometry := (chkMounted vol fsid).2.fs.toGeometry
    ∀ clst k, 2 ≤ clst → clst < geometry.nFatent → k < geometry.csize →
      let sector := clust2sect geometry clst + k
      sector < 2 ^ 32 ∧
        geometry.fatbase + geometry.nFats * geometry.fsize ≤ sector ∧
        (geometry.fsType ≠ .fat32 → geometry.dirbase + geometry.nRootdir / 16 ≤ sector) ∧
        ∀ other j, 2 ≤ other → other < geometry.nFatent → j < geometry.csize →
          clust2sect geometry other + j = sector → other = clst ∧ j = k := by
  intro geometry clst k valid inside place sector
  obtain ⟨layout, -, -⟩ := chkMounted_ready ready accepted
  obtain ⟨here, range⟩ := cluster_sector layout valid inside place
  have behind : sector = geometry.database + ((clst - 2) * geometry.csize + k) := here
  have fits : geometry.database + (geometry.nFatent - 2) * geometry.csize ≤ 2 ^ 32 := layout.fits
  have tables : geometry.fatbase + geometry.nFats * geometry.fsize ≤ geometry.database :=
    layout.database
  refine ⟨?_, ?_, fun other => ?_, fun other j valid' inside' place' same => ?_⟩
  · rw [behind]
    exact Nat.lt_of_lt_of_le (Nat.add_lt_add_left range _) fits
  · rw [behind]
    exact tables.trans (Nat.le_add_right _ _)
  · obtain ⟨-, root, -⟩ := layout.root other
    rw [behind]
    exact Nat.le_trans root (Nat.le_add_right _ _)
  · obtain ⟨there, -⟩ := cluster_sector layout valid' inside' place'
    have offsets : (other - 2) * geometry.csize + j = (clst - 2) * geometry.csize + k :=
      Nat.add_left_cancel ((there.symm.trans same).trans here)
    obtain ⟨clusters, places⟩ := place_unique place' place offsets
    exact ⟨by omega, places⟩

/-- A sector given by its bytes that are not zero. -/
def sectorWith (bytes : List (Nat × BitVec 8)) : Sector := fun offset =>
  ((bytes.find? fun byte => byte.1 = offset.toNat).map Prod.snd).getD 0

/-- A diskette with a directory `A` and in it the file `B.C` of 600 bytes in clusters 4 and 3. -/
def diskette : Disk where
  sectors := fun sector =>
    match sector with
    | 0 => sectorWith [(12, 0x02), (13, 1), (14, 1), (16, 1), (17, 0x10), (19, 6), (22, 1),
        (54, 0x46), (55, 0x41), (56, 0x54), (510, 0x55), (511, 0xAA)]
    | 1 => sectorWith [(3, 0xFF), (4, 0x0F), (6, 0x03)]
    | 2 => sectorWith [(0, 0x41), (1, 0x20), (2, 0x20), (3, 0x20), (4, 0x20), (5, 0x20), (6, 0x20),
        (7, 0x20), (8, 0x20), (9, 0x20), (10, 0x20), (11, 0x10), (26, 2)]
    | 3 => sectorWith [(0, 0x42), (1, 0x20), (2, 0x20), (3, 0x20), (4, 0x20), (5, 0x20), (6, 0x20),
        (7, 0x20), (8, 0x43), (9, 0x20), (10, 0x20), (26, 4), (28, 0x58), (29, 0x02)]
    | 4 => fun _ => 0xBB
    | _ => fun _ => 0xAA
  faults := fun _ => none

def unmounted (disk : Disk) : Volume where
  fs :=
    { fsType := .none, csize := 0, nFats := 0, id := 0, nFatent := 0, fsize := 0, nRootdir := 0
      fatbase := 0, dirbase := 0, database := 0
      info := { lastClust := 0, freeClust := 0, fsiFlag := false }
      cdir := 0, wflag := false, winsect := 0, win := fun _ => 0 }
  disk := disk

theorem diskette_ready : Ready (unmounted diskette) where
  kept := fun mounted => absurd rfl mounted
  anew := fun _ => ⟨by decide +kernel, by decide +kernel, by decide +kernel⟩

theorem clusters_apart_diskette :
    clust2sect (chkMounted (unmounted diskette) 0).2.fs.toGeometry 4 + 0 < 2 ^ 32 ∧
      2 ≤ clust2sect (chkMounted (unmounted diskette) 0).2.fs.toGeometry 4 + 0 ∧
      clust2sect (chkMounted (unmounted diskette) 0).2.fs.toGeometry 3 + 0 ≠
        clust2sect (chkMounted (unmounted diskette) 0).2.fs.toGeometry 4 + 0 := by
  obtain ⟨range, tables, -, apart⟩ := clusters_apart diskette_ready
    (show (chkMounted (unmounted diskette) 0).1 = .ok by decide +kernel) 4 0 (by decide)
    (by decide +kernel) (by decide +kernel)
  refine ⟨range, tables, fun same => ?_⟩
  cases (apart 3 0 (by decide) (by decide +kernel) (by decide +kernel) same).1

end Synesthesia.FatFs
