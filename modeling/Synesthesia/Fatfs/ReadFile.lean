/-
`f_read` of `ff.c` in the tiny configuration.

Whole sectors go from the disk to the buffer of the caller, as many at a time as the
cluster has; the rest of a file goes through the window.  A changed window that covers a
sector read directly is laid over it.
-/

import Mathlib.Data.List.Chain
import Synesthesia.Fatfs.Fat

namespace Synesthesia.FatFs

inductive FResult where
  | ok
  | diskErr
  | intErr
  | notReady
  | noFile
  | noPath
  | invalidName
  | denied
  | exist
  | invalidObject
  | writeProtected
  | invalidDrive
  | notEnabled
  | noFilesystem
  deriving DecidableEq

structure Fil where
  /-- The object has an owner. -/
  fs : Bool
  id : Nat
  faRead : Bool
  faError : Bool
  fptr : Nat
  fsize : Nat
  sclust : Nat
  clust : Nat
  dsect : Nat

def validate (fil : Fil) (vol : Volume) : FResult × Volume :=
  if fil.fs = false ∨ vol.fs.fsType = .none ∨ vol.fs.id ≠ fil.id then (.invalidObject, vol)
  else
    match vol.disk.faults 0 with
    | none => (.ok, { vol with disk := vol.disk.next })
    | some _ => (.notReady, { vol with disk := vol.disk.next })

/-- What a pass of the loop gives, or why it gives up. -/
abbrev Pass := Except FResult (List (BitVec 8)) × Fil × Volume

/-- On the cluster boundary: the cluster at the file pointer. -/
def nextClust (fil : Fil) (vol : Volume) : Nat × Volume :=
  if fil.fptr = 0 then (fil.sclust, vol) else getFat vol fil.clust

def enterClust (fil : Fil) (vol : Volume) : Except FResult Fil × Volume :=
  match nextClust fil vol with
  | (clst, vol) =>
      if clst < 2 then (.error .intErr, vol)
      else if clst = diskError then (.error .diskErr, vol)
      else (.ok { fil with clust := clst }, vol)

def sectorBytes (data : List Sector) : List (BitVec 8) :=
  (List.range (512 * data.length)).map fun i => byteAt (data.getD (i / 512) 0) (i % 512)

/-- Read maximum contiguous sectors directly. -/
def readDirect (fil : Fil) (vol : Volume) (sect csect cc : Nat) : Pass :=
  let cc := if vol.fs.csize < csect + cc then vol.fs.csize - csect else cc
  match diskRead vol.disk sect (cc % 256) with
  | (none, disk) => (.error .diskErr, fil, { vol with disk := disk })
  | (some data, disk) =>
      let offset := dword (vol.fs.winsect + 2 ^ 32 - sect)
      let data := if vol.fs.wflag = true ∧ offset < cc then data.set offset vol.fs.win else data
      (.ok (sectorBytes data), fil, { vol with disk := disk })

def readPartial (fil : Fil) (vol : Volume) (btr : Nat) : Pass :=
  let rcnt := min (512 - fil.fptr % 512) btr
  match moveWindow vol fil.dsect with
  | (false, vol) => (.error .diskErr, fil, vol)
  | (true, vol) =>
      (.ok ((List.range rcnt).map fun i => byteAt vol.fs.win (fil.fptr % 512 + i)), fil, vol)

/-- On the sector boundary, in the cluster of the file pointer. -/
def readSector (fil : Fil) (vol : Volume) (csect btr : Nat) : Pass :=
  let sect := clust2sect vol.fs.toGeometry fil.clust
  if sect = 0 then (.error .intErr, fil, vol)
  else if btr / 512 = 0 then readPartial { fil with dsect := dword (sect + csect) } vol btr
  else readDirect fil vol (dword (sect + csect)) csect (btr / 512)

def readPass (fil : Fil) (vol : Volume) (btr : Nat) : Pass :=
  if fil.fptr % 512 = 0 then
    let csect := (fil.fptr / 512 &&& vol.fs.csize - 1) % 256
    if csect = 0 then
      match enterClust fil vol with
      | (.error res, vol) => (.error res, fil, vol)
      | (.ok fil, vol) => readSector fil vol csect btr
    else readSector fil vol csect btr
  else readPartial fil vol btr

structure ReadResult where
  res : FResult
  /-- The bytes before `*br`. -/
  bytes : List (BitVec 8)
  fil : Fil
  vol : Volume

/-- The loop, with as many passes as there can be. -/
def readLoop : Nat → Fil → Volume → Nat → ReadResult
  | 0, fil, vol, _ => { res := .ok, bytes := [], fil := fil, vol := vol }
  | passes + 1, fil, vol, btr =>
      if btr = 0 then { res := .ok, bytes := [], fil := fil, vol := vol }
      else
        match readPass fil vol btr with
        | (.error res, fil, vol) =>
            { res := res
              bytes := []
              fil := { fil with faError := true }
              vol := vol }
        | (.ok bytes, fil, vol) =>
            let rest := readLoop passes
              { fil with fptr := dword (fil.fptr + bytes.length) } vol (btr - bytes.length)
            { rest with bytes := bytes ++ rest.bytes }

def fRead (fil : Fil) (vol : Volume) (btr : Nat) : ReadResult :=
  match validate fil vol with
  | (.ok, vol) =>
      if fil.faError then { res := .intErr, bytes := [], fil := fil, vol := vol }
      else if fil.faRead = false then { res := .denied, bytes := [], fil := fil, vol := vol }
      else
        let remain := dword (fil.fsize + 2 ^ 32 - fil.fptr)
        readLoop (min btr remain) fil vol (min btr remain)
  | (res, vol) => { res := res, bytes := [], fil := fil, vol := vol }

/-! ### Contents -/

section Contents

variable (geometry : Geometry) (view : Nat → Sector) (chain : List Nat)

/-- The cluster of an offset, as its place in the chain. -/
def Geometry.clusterNo (offset : Nat) : Nat := offset / 512 / geometry.csize

def sectorOf (offset : Nat) : Nat :=
  geometry.database + (chain.getD (geometry.clusterNo offset) 0 - 2) * geometry.csize +
    offset / 512 % geometry.csize

def byteOf (offset : Nat) : BitVec 8 :=
  byteAt (view (sectorOf geometry chain offset)) (offset % 512)

/-- `count` bytes of the clusters of a chain from an offset on. -/
def slice (offset count : Nat) : List (BitVec 8) :=
  (List.range count).map fun i => byteOf geometry view chain (offset + i)

end Contents

/-- The chain of a file from its first cluster on is whole. -/
structure Stored (vol : Volume) (sclust fsize : Nat) (chain : List Nat) : Prop where
  clusters : ∀ clst ∈ chain, 2 ≤ clst ∧ clst < vol.fs.nFatent
  linked : chain.IsChain fun clst next => fatEntry vol.fs.toGeometry vol.view clst = next
  first : 0 < fsize → chain.head? = some sclust
  enough : fsize ≤ 512 * (vol.fs.csize * chain.length)
  small : fsize < 2 ^ 32

/-- The file pointer, the current cluster and the current sector agree. -/
structure At (geometry : Geometry) (chain : List Nat) (fil : Fil) : Prop where
  within : fil.fptr ≤ fil.fsize
  clust : 0 < fil.fptr → chain[geometry.clusterNo (fil.fptr - 1)]? = some fil.clust
  dsect : fil.fptr % 512 ≠ 0 → fil.dsect = sectorOf geometry chain fil.fptr

section Sectors

variable {geometry : Geometry} {view : Nat → Sector} {chain : List Nat} {offset : Nat}

theorem Layout.csize_pos (layout : Layout geometry) : 0 < geometry.csize := by
  obtain ⟨power, -, csize⟩ := layout.csize
  rw [csize]
  exact Nat.two_pow_pos power

theorem Layout.mask_eq (layout : Layout geometry) (sector : Nat) :
    sector &&& geometry.csize - 1 = sector % geometry.csize := by
  obtain ⟨power, -, csize⟩ := layout.csize
  rw [csize, Nat.and_two_pow_sub_one_eq_mod]

theorem Layout.csect_eq (layout : Layout geometry) (sector : Nat) :
    (sector &&& geometry.csize - 1) % 256 = sector % geometry.csize := by
  obtain ⟨power, small, csize⟩ := layout.csize
  have bound : 2 ^ power ≤ 2 ^ 7 := Nat.pow_le_pow_right (by decide) small
  have inside := Nat.mod_lt sector layout.csize_pos
  rw [layout.mask_eq, Nat.mod_eq_of_lt (by omega)]

theorem sectorOf_congr {other : Nat} (same : other / 512 = offset / 512) :
    sectorOf geometry chain other = sectorOf geometry chain offset := by
  simp only [sectorOf, Geometry.clusterNo, same]

theorem clusterNo_add {i : Nat} (room : offset / 512 % geometry.csize + i < geometry.csize) :
    (offset / 512 + i) / geometry.csize = geometry.clusterNo offset := by
  have split := Nat.div_add_mod (offset / 512) geometry.csize
  rw [Geometry.clusterNo, ← split, Nat.add_assoc, Nat.mul_add_div (by omega), Nat.div_eq_of_lt room,
    Nat.add_zero, split]

theorem sectorOf_add {i : Nat} (room : offset / 512 % geometry.csize + i < geometry.csize) :
    sectorOf geometry chain (offset + 512 * i) = sectorOf geometry chain offset + i := by
  have next : (offset + 512 * i) / 512 = offset / 512 + i := by omega
  have split := Nat.div_add_mod (offset / 512) geometry.csize
  have sector : (offset / 512 + i) % geometry.csize = offset / 512 % geometry.csize + i := by
    rw [← split, Nat.add_assoc, Nat.mul_add_mod, Nat.mod_eq_of_lt room, split]
  rw [sectorOf, sectorOf, Geometry.clusterNo, next, clusterNo_add room, sector]
  omega

theorem clust2sect_sectorOf (layout : Layout geometry) {clst : Nat} (valid : 2 ≤ clst)
    (inside : clst < geometry.nFatent) (current : chain[geometry.clusterNo offset]? = some clst) :
    clust2sect geometry clst ≠ 0 ∧
      dword (clust2sect geometry clst + offset / 512 % geometry.csize) =
        sectorOf geometry chain offset ∧
      geometry.database ≤ sectorOf geometry chain offset ∧
      sectorOf geometry chain offset + (geometry.csize - offset / 512 % geometry.csize) ≤
        2 ^ 32 := by
  have sector := Nat.mod_lt (offset / 512) layout.csize_pos
  have fatbase := layout.fatbase
  obtain ⟨fatEnd, -⟩ := layout.fatEnd
  have fits := layout.fits
  have room : (clst - 2) * geometry.csize + geometry.csize ≤
      (geometry.nFatent - 2) * geometry.csize := by
    rw [← Nat.succ_mul]
    exact Nat.mul_le_mul_right _ (by omega)
  have here : sectorOf geometry chain offset =
      geometry.database + (clst - 2) * geometry.csize + offset / 512 % geometry.csize := by
    rw [sectorOf, List.getD_eq_getElem?_getD, current, Option.getD_some]
  rw [clust2sect_eq layout valid inside, here, dword_eq (by omega)]
  omega

end Sectors

/-! ### One pass -/

/-- A pass gives the next bytes of the file or a disk error; only the current cluster and
sector move. -/
structure PassReads (vol : Volume) (fil : Fil) (chain : List Nat) (btr : Nat) (pass : Pass) :
    Prop where
  moves : Moves vol pass.2.2
  same : { pass.2.1 with clust := fil.clust, dsect := fil.dsect } = fil
  fails : ∀ res, pass.1 = .error res → res = .diskErr
  works : vol.disk.Healthy → ∃ bytes, pass.1 = .ok bytes
  reads : ∀ bytes, pass.1 = .ok bytes → 0 < bytes.length ∧ bytes.length ≤ btr ∧
    bytes = slice vol.fs.toGeometry vol.view chain fil.fptr bytes.length ∧
    At vol.fs.toGeometry chain { pass.2.1 with fptr := fil.fptr + bytes.length }

section Pass

variable {vol : Volume} {fil : Fil} {chain : List Nat} {btr : Nat}
  (layout : Layout vol.fs.toGeometry) (coherent : Coherent vol)
  (stored : Stored vol fil.sclust fil.fsize chain)
  (some : 0 < btr) (left : fil.fptr + btr ≤ fil.fsize)

include stored in
theorem Stored.cluster {offset : Nat} (inside : offset < fil.fsize) :
    ∃ clst, chain[vol.fs.clusterNo offset]? = .some clst ∧ 2 ≤ clst ∧ clst < vol.fs.nFatent := by
  have enough := stored.enough
  have place : vol.fs.clusterNo offset < chain.length :=
    Nat.div_lt_of_lt_mul (Nat.div_lt_of_lt_mul (by omega))
  exact ⟨chain[vol.fs.clusterNo offset], List.getElem?_eq_getElem place,
    stored.clusters _ (List.getElem_mem place)⟩

include layout stored in
theorem Stored.moves {after : Volume} (moves : Moves vol after) :
    Stored after fil.sclust fil.fsize chain where
  clusters := moves.geometry ▸ stored.clusters
  linked := by
    refine stored.linked.imp_of_mem_imp fun clst next inside _ linked => ?_
    rw [moves.fatEntry layout (stored.clusters clst inside).2]
    exact linked
  first := stored.first
  enough := moves.geometry ▸ stored.enough
  small := stored.small

include layout stored in
theorem Stored.sector {offset : Nat} (inside : offset < fil.fsize) :
    sectorOf vol.fs.toGeometry chain offset ≠ 0 ∧
      sectorOf vol.fs.toGeometry chain offset < 2 ^ 32 ∧
      ¬ vol.fs.InCopies (sectorOf vol.fs.toGeometry chain offset) := by
  obtain ⟨clst, current, valid, entry⟩ := stored.cluster inside
  obtain ⟨-, -, data, fits⟩ := clust2sect_sectorOf layout valid entry current
  have database := layout.database
  have fatbase := layout.fatbase
  have sector := Nat.mod_lt (offset / 512) layout.csize_pos
  refine ⟨by omega, by omega, fun within => ?_⟩
  have before := within.2
  omega

include layout stored in
theorem Stored.slice_moves {after : Volume} (moves : Moves vol after) {offset count : Nat}
    (inside : offset + count ≤ fil.fsize) :
    slice after.fs.toGeometry after.view chain offset count =
      slice vol.fs.toGeometry vol.view chain offset count := by
  refine List.map_congr_left fun i member => ?_
  have before := List.mem_range.mp member
  rw [byteOf, byteOf, moves.geometry,
    moves.view _ (stored.sector layout (show offset + i < fil.fsize by omega)).2.2]

include layout coherent stored some left

theorem readPartial_reads (current : chain[vol.fs.clusterNo fil.fptr]? = .some fil.clust)
    (dsect : fil.dsect = sectorOf vol.fs.toGeometry chain fil.fptr) :
    PassReads vol fil chain btr (readPartial fil vol btr) := by
  obtain ⟨sector, range, other⟩ := stored.sector layout (show fil.fptr < fil.fsize by omega)
  rw [← dsect] at sector range other
  obtain ⟨moves, -, works⟩ := moveWindow_moves layout coherent sector range
  have win := moveWindow_win layout coherent sector range other
  rw [readPartial]
  rcases moved : moveWindow vol fil.dsect with ⟨_ | _, vol'⟩
  · rw [moved] at moves works
    exact ⟨moves, rfl, fun _ failed => (Except.error.inj failed).symm,
      fun healthy => absurd (works healthy) Bool.false_ne_true, nofun⟩
  · rw [moved] at moves win
    refine ⟨moves, rfl, nofun, fun _ => ⟨_, rfl⟩, fun bytes given => ?_⟩
    obtain rfl := Except.ok.inj given
    rw [List.length_map, List.length_range]
    have amount : 0 < min (512 - fil.fptr % 512) btr := by omega
    have inSector {i : Nat} (before : i < min (512 - fil.fptr % 512) btr) :
        (fil.fptr + i) / 512 = fil.fptr / 512 := by omega
    refine ⟨amount, Nat.min_le_right _ _, ?_, ?_⟩
    · refine List.map_congr_left fun i inside => ?_
      have before := List.mem_range.mp inside
      rw [win rfl, byteOf, sectorOf_congr (inSector before), ← dsect]
      congr 1
      omega
    · refine ⟨show fil.fptr + _ ≤ fil.fsize by omega, fun _ => ?_, fun rest => ?_⟩
      · rw [Nat.add_sub_assoc amount, Geometry.clusterNo, inSector (by omega)]
        exact current
      · rw [dsect]
        exact (sectorOf_congr (by dsimp only at rest ⊢; omega)).symm

omit layout stored some left in
/-- With the window laid over them, the sectors of the disk are those of the volume. -/
theorem overlay_eq {sect count : Nat} (fits : sect + count ≤ 2 ^ 32) :
    (if vol.fs.wflag = true ∧ dword (vol.fs.winsect + 2 ^ 32 - sect) < count then
        ((List.range count).map fun i => vol.disk.sectors (sect + i)).set
          (dword (vol.fs.winsect + 2 ^ 32 - sect)) vol.fs.win
      else (List.range count).map fun i => vol.disk.sectors (sect + i)) =
      (List.range count).map fun i => vol.view (sect + i) := by
  have range := coherent.range
  split
  case isTrue covered =>
    obtain ⟨dirty, inside⟩ := covered
    have here : vol.fs.winsect = sect + dword (vol.fs.winsect + 2 ^ 32 - sect) := by
      rw [dword] at inside ⊢
      omega
    refine List.ext_getElem (by rw [List.length_set, List.length_map, List.length_map]) ?_
    intro i _ _
    rw [List.getElem_set, List.getElem_map, List.getElem_map, List.getElem_range]
    split
    case isTrue same => rw [← same, ← here, view_window dirty]
    case isFalse away => exact (view_other _ fun same => away (by omega)).symm
  case isFalse uncovered =>
    refine List.map_congr_left fun i inside => ?_
    have before := List.mem_range.mp inside
    rw [Volume.view, if_neg]
    rintro ⟨dirty, same⟩
    refine uncovered ⟨dirty, ?_⟩
    rw [dword]
    omega

theorem readDirect_reads {csect : Nat} (boundary : fil.fptr % 512 = 0)
    (current : chain[vol.fs.clusterNo fil.fptr]? = .some fil.clust)
    (sector : csect = fil.fptr / 512 % vol.fs.csize) (whole : btr / 512 ≠ 0) :
    PassReads vol fil chain btr
      (readDirect fil vol (sectorOf vol.fs.toGeometry chain fil.fptr) csect (btr / 512)) := by
  obtain ⟨clst, current', valid, entry⟩ := stored.cluster (show fil.fptr < fil.fsize by omega)
  obtain ⟨-, -, data, fits⟩ := clust2sect_sectorOf layout valid entry current'
  obtain ⟨power, seven, csize⟩ := layout.csize
  have large : 2 ^ power ≤ 2 ^ 7 := Nat.pow_le_pow_right (by decide) seven
  have inside := Nat.mod_lt (fil.fptr / 512) layout.csize_pos
  rw [readDirect]
  generalize clipped : (if vol.fs.csize < csect + btr / 512 then vol.fs.csize - csect
    else btr / 512) = count
  have bounds : 0 < count ∧ count ≤ btr / 512 ∧ csect + count ≤ vol.fs.csize := by
    split at clipped
    · omega
    · omega
  dsimp only
  rw [Nat.mod_eq_of_lt (show count < 256 by omega)]
  have works (healthy : vol.disk.Healthy) :=
    healthy.diskRead_isSome (sectorOf vol.fs.toGeometry chain fil.fptr) count
  have next := diskRead_next vol.disk (sectorOf vol.fs.toGeometry chain fil.fptr) count
  rcases read : diskRead vol.disk (sectorOf vol.fs.toGeometry chain fil.fptr) count with
    ⟨_ | data, disk⟩
  · rw [read] at works next
    obtain rfl : disk = vol.disk.next := next
    exact ⟨next_moves coherent, rfl, fun _ failed => (Except.error.inj failed).symm,
      fun healthy => absurd (works healthy) nofun, nofun⟩
  · obtain ⟨rfl, rfl⟩ := diskRead_some read
    dsimp only
    rw [overlay_eq coherent (by omega)]
    refine ⟨next_moves coherent, rfl, nofun, fun _ => ⟨_, rfl⟩, fun bytes given => ?_⟩
    obtain rfl := Except.ok.inj given
    rw [sectorBytes, List.length_map, List.length_range, List.length_map, List.length_range]
    have room {i : Nat} (before : i < count) :
        fil.fptr / 512 % vol.fs.csize + i < vol.fs.csize := by omega
    refine ⟨by omega, by omega, ?_, ?_⟩
    · refine List.map_congr_left fun i inside' => ?_
      have before := List.mem_range.mp inside'
      have sectorNo : i / 512 < count := by omega
      rw [byteOf,
        sectorOf_congr (show (fil.fptr + i) / 512 = (fil.fptr + 512 * (i / 512)) / 512 by omega),
        sectorOf_add (room sectorNo), show (fil.fptr + i) % 512 = i % 512 by omega,
        List.getD_eq_getElem?_getD, List.getElem?_map, List.getElem?_range sectorNo]
      rfl
    · refine ⟨show fil.fptr + 512 * count ≤ fil.fsize by omega, fun _ => ?_, fun rest => ?_⟩
      · rw [Geometry.clusterNo, show (fil.fptr + 512 * count - 1) / 512 =
          fil.fptr / 512 + (count - 1) by omega, clusterNo_add (room (by omega))]
        exact current
      · dsimp only at rest
        omega

theorem readSector_reads {csect : Nat} (boundary : fil.fptr % 512 = 0)
    (current : chain[vol.fs.clusterNo fil.fptr]? = .some fil.clust)
    (sector : csect = fil.fptr / 512 % vol.fs.csize) :
    PassReads vol fil chain btr (readSector fil vol csect btr) := by
  obtain ⟨clst, current', valid, entry⟩ := stored.cluster (show fil.fptr < fil.fsize by omega)
  obtain rfl : clst = fil.clust := Option.some.inj (current'.symm.trans current)
  obtain ⟨nonzero, same, -, -⟩ := clust2sect_sectorOf layout valid entry current
  rw [readSector, if_neg nonzero]
  split
  case isTrue few =>
    rw [sector, same]
    have pass : PassReads vol { fil with dsect := sectorOf vol.fs.toGeometry chain fil.fptr } chain
        btr (readPartial { fil with dsect := sectorOf vol.fs.toGeometry chain fil.fptr } vol btr) :=
      readPartial_reads layout coherent stored some left current rfl
    exact ⟨pass.moves, congrArg (fun moved => { moved with dsect := fil.dsect }) pass.same,
      pass.fails, pass.works, pass.reads⟩
  case isFalse many =>
    rw [sector, same, ← sector]
    exact readDirect_reads layout coherent stored some left boundary current sector many

omit coherent stored some left in
theorem clusterNo_next (boundary : fil.fptr % 512 = 0) (whole : fil.fptr / 512 % vol.fs.csize = 0)
    (started : 0 < fil.fptr) :
    vol.fs.clusterNo fil.fptr = vol.fs.clusterNo (fil.fptr - 1) + 1 := by
  have split := Nat.div_add_mod (fil.fptr / 512) vol.fs.csize
  have positive := layout.csize_pos
  rw [whole, Nat.add_zero] at split
  obtain ⟨before, same⟩ : ∃ before, fil.fptr / 512 / vol.fs.csize = before + 1 := by
    refine Nat.exists_eq_succ_of_ne_zero fun none => ?_
    rw [none, Nat.mul_zero] at split
    omega
  rw [same, Nat.mul_succ] at split
  rw [Geometry.clusterNo, Geometry.clusterNo, same, show (fil.fptr - 1) / 512 =
      vol.fs.csize * before + (vol.fs.csize - 1) by omega, Nat.mul_add_div positive,
    Nat.div_eq_of_lt (by omega), Nat.add_zero]

omit coherent stored some left in
theorem clusterNo_inside (boundary : fil.fptr % 512 = 0)
    (inside : fil.fptr / 512 % vol.fs.csize ≠ 0) :
    vol.fs.clusterNo (fil.fptr - 1) = vol.fs.clusterNo fil.fptr := by
  have split := Nat.div_add_mod (fil.fptr / 512) vol.fs.csize
  have positive := layout.csize_pos
  have small := Nat.mod_lt (fil.fptr / 512) positive
  rw [Geometry.clusterNo, Geometry.clusterNo, show (fil.fptr - 1) / 512 =
      vol.fs.csize * (fil.fptr / 512 / vol.fs.csize) + (fil.fptr / 512 % vol.fs.csize - 1) by omega,
    Nat.mul_add_div positive,
    Nat.div_eq_of_lt (show fil.fptr / 512 % vol.fs.csize - 1 < vol.fs.csize by omega), Nat.add_zero]

omit some left in
theorem nextClust_reads (place : At vol.fs.toGeometry chain fil) (boundary : fil.fptr % 512 = 0)
    (whole : fil.fptr / 512 % vol.fs.csize = 0) (more : fil.fptr < fil.fsize) :
    ∃ clst, chain[vol.fs.clusterNo fil.fptr]? = .some clst ∧ 2 ≤ clst ∧ clst < vol.fs.nFatent ∧
      Reads vol (nextClust fil vol) clst := by
  obtain ⟨clst, current, valid, entry⟩ := stored.cluster more
  refine ⟨clst, current, valid, entry, ?_⟩
  rw [nextClust]
  split
  case isTrue top =>
    have first := stored.first (by omega)
    rw [List.head?_eq_getElem?] at first
    rw [top, show vol.fs.clusterNo 0 = 0 by simp [Geometry.clusterNo], first] at current
    exact reads_value coherent (Option.some.inj current)
  case isFalse middle =>
    have last := place.clust (by omega)
    rw [clusterNo_next layout boundary whole (by omega)] at current
    obtain ⟨lastInside, lastAt⟩ := List.getElem?_eq_some_iff.mp last
    obtain ⟨inside, here⟩ := List.getElem?_eq_some_iff.mp current
    have linked := List.isChain_iff_getElem.mp stored.linked _ inside
    rw [lastAt, here] at linked
    obtain ⟨lastValid, lastEntry⟩ := stored.clusters fil.clust
      (lastAt ▸ List.getElem_mem lastInside)
    rw [← linked]
    exact getFat_reads layout coherent lastValid lastEntry

omit coherent some in
theorem PassReads.after {moved : Volume} (moves : Moves vol moved) {clst : Nat} {pass : Pass}
    (reads : PassReads moved { fil with clust := clst } chain btr pass) :
    PassReads vol fil chain btr pass where
  moves := moves.trans reads.moves
  same := congrArg (fun later => { later with clust := fil.clust }) reads.same
  fails := reads.fails
  works := fun healthy => reads.works (moves.healthy healthy)
  reads := by
    intro bytes given
    obtain ⟨some, few, same, place⟩ := reads.reads bytes given
    rw [stored.slice_moves layout moves (show fil.fptr + bytes.length ≤ fil.fsize by omega)] at same
    rw [moves.geometry] at place
    exact ⟨some, few, same, place⟩

theorem readPass_reads (place : At vol.fs.toGeometry chain fil) :
    PassReads vol fil chain btr (readPass fil vol btr) := by
  have more : fil.fptr < fil.fsize := by omega
  have current (inside : 0 < fil.fptr)
      (same : vol.fs.clusterNo (fil.fptr - 1) = vol.fs.clusterNo fil.fptr) :
      chain[vol.fs.clusterNo fil.fptr]? = .some fil.clust := by
    rw [← same]
    exact place.clust inside
  rw [readPass]
  split
  case isFalse within =>
    refine readPartial_reads layout coherent stored some left (current (by omega) ?_)
      (place.dsect within)
    rw [Geometry.clusterNo, Geometry.clusterNo, show (fil.fptr - 1) / 512 = fil.fptr / 512 by omega]
  case isTrue boundary =>
    dsimp only
    rw [layout.csect_eq]
    split
    case isFalse inside =>
      have started : 0 < fil.fptr := by
        refine Nat.pos_of_ne_zero fun top => inside ?_
        rw [top, Nat.zero_div, Nat.zero_mod]
      exact readSector_reads layout coherent stored some left boundary
        (current started (clusterNo_inside layout boundary inside)) rfl
    case isTrue whole =>
      obtain ⟨clst, here, valid, entry, entered⟩ :=
        nextClust_reads layout coherent stored place boundary whole more
      have entries := layout.entries
      obtain ⟨moves, answers, works⟩ := entered
      have proper : clst ≠ diskError ∧ ¬ diskError < 2 := by
        rw [diskError]
        omega
      rw [enterClust]
      rcases next : nextClust fil vol with ⟨answer, moved⟩
      rw [next] at moves answers works
      dsimp only at moves answers works ⊢
      rcases answers with rfl | rfl
      · rw [if_neg (by omega), if_neg proper.1]
        have layout' : Layout moved.fs.toGeometry := moves.geometry ▸ layout
        have stored' : Stored moved fil.sclust fil.fsize chain := stored.moves layout moves
        have current' : chain[moved.fs.clusterNo fil.fptr]? = .some answer := by
          rw [moves.geometry]
          exact here
        have sector : fil.fptr / 512 % vol.fs.csize = fil.fptr / 512 % moved.fs.csize := by
          rw [moves.geometry]
        have pass : PassReads moved { fil with clust := answer } chain btr
            (readSector { fil with clust := answer } moved (fil.fptr / 512 % vol.fs.csize) btr) :=
          @readSector_reads moved { fil with clust := answer } chain btr layout' moves.coherent
            stored' some left _ boundary current' sector
        exact pass.after layout stored left moves
      · rw [if_neg proper.2, if_pos rfl]
        have healthyFails (healthy : vol.disk.Healthy) : False := proper.1 (works healthy).symm
        exact ⟨moves, rfl, fun _ failed => (Except.error.inj failed).symm,
          fun healthy => (healthyFails healthy).elim, nofun⟩

end Pass

/-! ### The whole loop -/

theorem slice_add (geometry : Geometry) (view : Nat → Sector) (chain : List Nat)
    (offset first second : Nat) :
    slice geometry view chain offset (first + second) =
      slice geometry view chain offset first ++
        slice geometry view chain (offset + first) second := by
  simp only [slice, List.range_add, List.map_append, List.map_map, Function.comp_def, Nat.add_assoc]

theorem length_slice (geometry : Geometry) (view : Nat → Sector) (chain : List Nat)
    (offset count : Nat) : (slice geometry view chain offset count).length = count := by
  rw [slice, List.length_map, List.length_range]

/-- The loop gives the bytes it was asked for, or those before a disk error. -/
structure LoopReads (vol : Volume) (fil : Fil) (chain : List Nat) (btr : Nat)
    (result : ReadResult) :
    Prop where
  moves : Moves vol result.vol
  few : result.bytes.length ≤ btr
  bytes : result.bytes = slice vol.fs.toGeometry vol.view chain fil.fptr result.bytes.length
  fptr : result.fil.fptr = fil.fptr + result.bytes.length
  same : { result.fil with
    fptr := fil.fptr, faError := fil.faError, clust := fil.clust, dsect := fil.dsect } = fil
  outcome : result.res = .ok ∧ result.bytes.length = btr ∧ result.fil.faError = fil.faError ∧
      At vol.fs.toGeometry chain result.fil ∨
    result.res = .diskErr ∧ result.fil.faError = true
  works : vol.disk.Healthy → result.res = .ok

theorem loopReads_done {vol : Volume} {fil : Fil} {chain : List Nat} (coherent : Coherent vol)
    (place : At vol.fs.toGeometry chain fil) :
    LoopReads vol fil chain 0 { res := .ok, bytes := [], fil := fil, vol := vol } where
  moves := .refl coherent
  few := Nat.le_refl _
  bytes := rfl
  fptr := rfl
  same := rfl
  outcome := .inl ⟨rfl, rfl, rfl, place⟩
  works := fun _ => rfl

theorem loopReads_failed {vol vol' : Volume} {fil fil' : Fil} {chain : List Nat} {btr : Nat}
    (moves : Moves vol vol') (same : { fil' with clust := fil.clust, dsect := fil.dsect } = fil)
    (faulty : ¬ vol.disk.Healthy) :
    LoopReads vol fil chain btr
      { res := .diskErr, bytes := [], fil := { fil' with faError := true }, vol := vol' } where
  moves := moves
  few := Nat.zero_le _
  bytes := rfl
  fptr := (congrArg Fil.fptr same :)
  same := congrArg (fun moved => { moved with fptr := fil.fptr, faError := fil.faError }) same
  outcome := .inr ⟨rfl, rfl⟩
  works := fun healthy => absurd healthy faulty

theorem LoopReads.after {vol vol' : Volume} {fil fil' : Fil} {chain : List Nat} {btr : Nat}
    {bytes : List (BitVec 8)} {rest : ReadResult} (layout : Layout vol.fs.toGeometry)
    (stored : Stored vol fil.sclust fil.fsize chain) (left : fil.fptr + btr ≤ fil.fsize)
    (moves : Moves vol vol') (same : { fil' with clust := fil.clust, dsect := fil.dsect } = fil)
    (fewer : bytes.length ≤ btr)
    (part : bytes = slice vol.fs.toGeometry vol.view chain fil.fptr bytes.length)
    (reads : LoopReads vol' { fil' with fptr := fil.fptr + bytes.length } chain
      (btr - bytes.length) rest) :
    LoopReads vol fil chain btr { rest with bytes := bytes ++ rest.bytes } := by
  have last := reads.few
  have total : (bytes ++ rest.bytes).length = bytes.length + rest.bytes.length :=
    List.length_append
  refine
    { moves := moves.trans reads.moves
      few := by dsimp only; omega
      bytes := ?_
      fptr := ?_
      same := ?_
      outcome := ?_
      works := fun healthy => reads.works (moves.healthy healthy) }
  · have more := reads.bytes
    rw [stored.slice_moves layout moves (by dsimp only; omega)] at more
    dsimp only at more ⊢
    rw [total, slice_add, ← part, ← more]
  · have moved := reads.fptr
    dsimp only at moved ⊢
    omega
  · have later := congrArg (fun moved => { moved with
      fptr := fil.fptr, faError := fil.faError, clust := fil.clust, dsect := fil.dsect })
      reads.same
    exact later.trans (congrArg (fun moved =>
      { moved with fptr := fil.fptr, faError := fil.faError }) same)
  · rcases reads.outcome with ⟨ok, all, faError, place⟩ | failed
    · refine .inl ⟨ok, by dsimp only at total ⊢; omega, ?_, ?_⟩
      · exact faError.trans (congrArg Fil.faError same :)
      · rw [← moves.geometry]
        exact place
    · exact .inr failed

theorem readLoop_reads {vol : Volume} {fil : Fil} {chain : List Nat} {btr passes : Nat}
    (layout : Layout vol.fs.toGeometry) (coherent : Coherent vol)
    (stored : Stored vol fil.sclust fil.fsize chain) (place : At vol.fs.toGeometry chain fil)
    (left : fil.fptr + btr ≤ fil.fsize) (enough : btr ≤ passes) :
    LoopReads vol fil chain btr (readLoop passes fil vol btr) := by
  induction passes generalizing vol fil btr with
  | zero =>
      obtain rfl := Nat.le_zero.mp enough
      exact loopReads_done coherent place
  | succ passes ih =>
      rw [readLoop]
      split
      case isTrue none =>
        rw [none]
        exact loopReads_done coherent place
      case isFalse some =>
        have pass := readPass_reads layout coherent stored (Nat.pos_of_ne_zero some) left place
        generalize readPass fil vol btr = given at pass ⊢
        obtain ⟨answer, fil', vol'⟩ := given
        obtain ⟨moves, same, fails, works, reads⟩ := pass
        cases answer with
        | error res =>
            obtain rfl := fails res rfl
            exact loopReads_failed moves same fun healthy => absurd (works healthy) nofun
        | ok bytes =>
            obtain ⟨positive, few, part, place'⟩ := reads bytes rfl
            dsimp only at moves same part place'
            have pointer : fil'.fptr = fil.fptr := (congrArg Fil.fptr same :)
            have sclust : fil'.sclust = fil.sclust := (congrArg Fil.sclust same :)
            have fsize : fil'.fsize = fil.fsize := (congrArg Fil.fsize same :)
            have small := stored.small
            dsimp only
            rw [pointer, dword_eq (by omega)]
            have layout' : Layout vol'.fs.toGeometry := moves.geometry ▸ layout
            have stored' : Stored vol' fil'.sclust fil'.fsize chain := by
              rw [sclust, fsize]
              exact stored.moves layout moves
            have rest := @ih vol' { fil' with fptr := fil.fptr + bytes.length } (btr - bytes.length)
              layout' moves.coherent stored' (moves.geometry ▸ place')
              (by dsimp only; omega) (by omega)
            exact rest.after layout stored left moves same few part

/-! ### Reading a file -/

/-- The file object belongs to the volume and may be read. -/
structure Opened (vol : Volume) (fil : Fil) : Prop where
  fs : fil.fs = true
  id : fil.id = vol.fs.id
  faRead : fil.faRead = true
  faError : fil.faError = false

/-- The file object of a file that is being read. -/
structure Reading (vol : Volume) (fil : Fil) (chain : List Nat) : Prop where
  layout : Layout vol.fs.toGeometry
  coherent : Coherent vol
  stored : Stored vol fil.sclust fil.fsize chain
  place : At vol.fs.toGeometry chain fil
  opened : Opened vol fil

/-- A call of `f_read`: the next bytes of the file, and the file object can be used again;
or, after a failure of the disk, the bytes before it. -/
structure FileRead (vol : Volume) (fil : Fil) (chain : List Nat) (btr : Nat) (result : ReadResult) :
    Prop where
  moves : Moves vol result.vol
  bytes : result.bytes = slice vol.fs.toGeometry vol.view chain fil.fptr result.bytes.length
  fptr : result.fil.fptr = fil.fptr + result.bytes.length
  fsize : result.fil.fsize = fil.fsize
  few : result.bytes.length ≤ min btr (fil.fsize - fil.fptr)
  outcome : result.res = .ok ∧ result.bytes.length = min btr (fil.fsize - fil.fptr) ∧
      Reading result.vol result.fil chain ∨
    result.res = .diskErr ∨ result.res = .notReady
  works : vol.disk.Healthy → result.res = .ok

section Read

variable {vol : Volume} {fil : Fil} {chain : List Nat}

theorem validate_cases (layout : Layout vol.fs.toGeometry) (opened : Opened vol fil) :
    validate fil vol = (.ok, { vol with disk := vol.disk.next }) ∨
      validate fil vol = (.notReady, { vol with disk := vol.disk.next }) ∧ ¬ vol.disk.Healthy := by
  have valid : ¬ (fil.fs = false ∨ vol.fs.fsType = .none ∨ vol.fs.id ≠ fil.id) := by
    rintro (missing | unmounted | other)
    · exact Bool.false_ne_true (missing.symm.trans opened.fs)
    · exact layout.mounted unmounted
    · exact other opened.id.symm
  rw [validate, if_neg valid]
  cases fault : vol.disk.faults 0 with
  | none => exact .inl rfl
  | some left => exact .inr ⟨rfl, fun healthy => by rw [healthy 0] at fault; cases fault⟩

/-- `f_read` gives the bytes of the file at the file pointer, wherever its clusters are and
whatever sector the window shows. -/
theorem fRead_reads (reading : Reading vol fil chain) (btr : Nat) :
    FileRead vol fil chain btr (fRead fil vol btr) := by
  obtain ⟨layout, coherent, stored, place, opened⟩ := reading
  have within := place.within
  have small := stored.small
  have remain : dword (fil.fsize + 2 ^ 32 - fil.fptr) = fil.fsize - fil.fptr := by
    rw [dword]
    omega
  have moves := next_moves coherent
  rw [fRead]
  rcases validate_cases layout opened with answer | ⟨answer, faulty⟩
  · rw [answer]
    dsimp only
    rw [opened.faError, opened.faRead, remain, if_neg Bool.false_ne_true,
      if_neg Bool.false_ne_true.symm]
    have loop := @readLoop_reads { vol with disk := vol.disk.next } fil chain
      (min btr (fil.fsize - fil.fptr)) _ layout moves.coherent (stored.moves layout moves) place
      (by omega) (Nat.le_refl _)
    generalize readLoop (min btr (fil.fsize - fil.fptr)) fil { vol with disk := vol.disk.next }
      (min btr (fil.fsize - fil.fptr)) = result at loop ⊢
    have all := moves.trans loop.moves
    have sclust : result.fil.sclust = fil.sclust := (congrArg Fil.sclust loop.same :)
    have fsize : result.fil.fsize = fil.fsize := (congrArg Fil.fsize loop.same :)
    refine
      { moves := all
        bytes := loop.bytes
        fptr := loop.fptr
        fsize := fsize
        few := loop.few
        outcome := ?_
        works := fun healthy => loop.works healthy.next }
    rcases loop.outcome with ⟨ok, count, faError, place'⟩ | failed
    · refine .inl ⟨ok, count, ?_, loop.moves.coherent, ?_, ?_, ?_⟩
      · rw [all.geometry]
        exact layout
      · rw [sclust, fsize]
        exact stored.moves layout all
      · rw [all.geometry]
        exact place'
      · refine ⟨(congrArg Fil.fs loop.same :).trans opened.fs, ?_,
          (congrArg Fil.faRead loop.same :).trans opened.faRead, faError.trans opened.faError⟩
        rw [all.geometry]
        exact (congrArg Fil.id loop.same :).trans opened.id
    · exact .inr (.inl failed.1)
  · rw [answer]
    exact
      { moves := moves
        bytes := rfl
        fptr := rfl
        fsize := rfl
        few := Nat.zero_le _
        outcome := .inr (.inr rfl)
        works := fun healthy => absurd healthy faulty }

end Read

end Synesthesia.FatFs
