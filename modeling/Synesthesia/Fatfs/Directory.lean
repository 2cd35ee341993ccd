/-
`ff.c`: how a directory is searched, without long file names.

A directory is a table of entries of 32 bytes.  The root directory of a FAT12 or FAT16
volume has sectors of its own; any other directory is a chain of clusters.  A first byte
of zero ends the table early.
-/

import Synesthesia.Fatfs.ReadFile

namespace Synesthesia.FatFs

structure Dir where
  /-- Table start cluster (0: Root dir). -/
  sclust : Nat
  index : Nat
  /-- Current cluster (0: Static table). -/
  clust : Nat
  /-- Current sector (0: Read operation has terminated). -/
  sect : Nat
  /-- The current entry in the window, as an offset. -/
  dir : Option Nat

def Dir.point (dj : Dir) (i : Nat) : Dir := { dj with index := i, dir := some (i % 16 * 32) }

/-- Follow cluster chain; at most `idx` clusters are left behind. -/
def followChain (ic : Nat) : Nat → Nat → Nat → Volume → Except FResult (Nat × Nat) × Volume
  | 0, clst, idx, vol => (.ok (clst, idx), vol)
  | steps + 1, clst, idx, vol =>
      if idx < ic then (.ok (clst, idx), vol)
      else
        match getFat vol clst with
        | (next, vol) =>
            if next = diskError then (.error .diskErr, vol)
            else if next < 2 ∨ vol.fs.nFatent ≤ next then (.error .intErr, vol)
            else followChain ic steps next (idx - ic) vol

/-- Replace cluster# 0 with root cluster# if in FAT32. -/
def Geometry.dirStart (geometry : Geometry) (sclust : Nat) : Nat :=
  if sclust = 0 ∧ geometry.fsType = .fat32 then geometry.dirbase else sclust

def dirSdi (dj : Dir) (vol : Volume) (idx : Nat) : FResult × Dir × Volume :=
  let dj := { dj with index := idx }
  if dj.sclust = 1 ∨ vol.fs.nFatent ≤ dj.sclust then (.intErr, dj, vol)
  else
    let clst := vol.fs.dirStart dj.sclust
    if clst = 0 then
      if vol.fs.nRootdir ≤ idx then (.intErr, { dj with clust := 0 }, vol)
      else
        (.ok,
          { dj with
            clust := 0
            sect := dword (vol.fs.dirbase + idx / 16)
            dir := some (idx % 16 * 32) }, vol)
    else
      match followChain (16 * vol.fs.csize) idx clst idx vol with
      | (.error res, vol) => (res, dj, vol)
      | (.ok (clst, idx), vol) =>
          (.ok,
            { dj with
              clust := clst
              sect := dword (clust2sect vol.fs.toGeometry clst + idx / 16)
              dir := some (idx % 16 * 32) }, vol)

/-- The sector after the last entry of a sector. -/
def nextSector (dj : Dir) (vol : Volume) (i : Nat) : FResult × Dir × Volume :=
  let dj := { dj with sect := dword (dj.sect + 1) }
  if dj.clust = 0 then
    if vol.fs.nRootdir ≤ i then (.noFile, dj, vol) else (.ok, dj.point i, vol)
  else if i / 16 &&& vol.fs.csize - 1 = 0 then
    match getFat vol dj.clust with
    | (clst, vol) =>
        if clst ≤ 1 then (.intErr, dj, vol)
        else if clst = diskError then (.diskErr, dj, vol)
        else if vol.fs.nFatent ≤ clst then (.noFile, dj, vol)
        else
          (.ok, { dj with clust := clst, sect := clust2sect vol.fs.toGeometry clst }.point i, vol)
  else (.ok, dj.point i, vol)

/-- `dir_next` where the table is not stretched (no file: End of table). -/
def dirNext (dj : Dir) (vol : Volume) : FResult × Dir × Volume :=
  let i := (dj.index + 1) % 2 ^ 16
  if i = 0 ∨ dj.sect = 0 then (.noFile, dj, vol)
  else if i % 16 = 0 then nextSector dj vol i
  else (.ok, dj.point i, vol)

def entryEnds (win : Sector) (dir : Nat) : Bool := byteAt win dir == 0

def entryName (win : Sector) (dir : Nat) : List (BitVec 8) :=
  (List.range 11).map fun i => byteAt win (dir + i)

def entryAttr (win : Sector) (dir : Nat) : BitVec 8 := byteAt win (dir + 11)

def entryMatches (name : List (BitVec 8)) (win : Sector) (dir : Nat) : Bool :=
  entryAttr win dir &&& 0x08 == 0 && entryName win dir == name

/-- The loop of `dir_find`; an index has 16 bits. -/
def findEntry (name : List (BitVec 8)) : Nat → Dir → Volume → FResult × Dir × Volume
  | 0, dj, vol => (.noFile, dj, vol)
  | entries + 1, dj, vol =>
      match moveWindow vol dj.sect with
      | (false, vol) => (.diskErr, dj, vol)
      | (true, vol) =>
          if entryEnds vol.fs.win (dj.dir.getD 0) then (.noFile, dj, vol)
          else if entryMatches name vol.fs.win (dj.dir.getD 0) then (.ok, dj, vol)
          else
            match dirNext dj vol with
            | (.ok, dj, vol) => findEntry name entries dj vol
            | (res, dj, vol) => (res, dj, vol)

def dirFind (dj : Dir) (vol : Volume) (name : List (BitVec 8)) : FResult × Dir × Volume :=
  match dirSdi dj vol 0 with
  | (.ok, dj, vol) => findEntry name (2 ^ 16) dj vol
  | (res, dj, vol) => (res, dj, vol)

/-! ### Tables -/

section Table

variable (geometry : Geometry)

/-- The sectors of a table; no clusters mean the static table. -/
def dirSector : List Nat → Nat → Nat
  | [], k => geometry.dirbase + k
  | clst :: rest, k => sectorOf geometry (clst :: rest) (512 * k)

def dirSectors : List Nat → Nat
  | [] => geometry.nRootdir / 16
  | _ :: rest => geometry.csize * (rest.length + 1)

/-- The entries that an index reaches. -/
def dirEntries (chain : List Nat) : Nat := min (16 * dirSectors geometry chain) (2 ^ 16)

def entryIs (view : Nat → Sector) (chain : List Nat) (property : Sector → Nat → Bool) (i : Nat) :
    Bool :=
  property (view (dirSector geometry chain (i / 16))) (i % 16 * 32)

/-- The first entry with a property, from entry `i` on and before the end of the table. -/
def lookupFrom (view : Nat → Sector) (chain : List Nat) (property : Sector → Nat → Bool) (i : Nat) :
    Option Nat :=
  ((List.range' i (dirEntries geometry chain - i)).takeWhile fun k =>
    !entryIs geometry view chain entryEnds k).find? (entryIs geometry view chain property)

def lookup (view : Nat → Sector) (chain : List Nat) (name : List (BitVec 8)) : Option Nat :=
  lookupFrom geometry view chain (entryMatches name) 0

variable {geometry} {view : Nat → Sector} {chain : List Nat} {property : Sector → Nat → Bool}
  {i : Nat}

theorem lt_dirSectors (layout : Layout geometry) {first k : Nat} {rest : List Nat} :
    k < dirSectors geometry (first :: rest) ↔ k / geometry.csize < (first :: rest).length := by
  rw [Nat.div_lt_iff_lt_mul layout.csize_pos, Nat.mul_comm]
  rfl

theorem lookupFrom_end (past : dirEntries geometry chain ≤ i) :
    lookupFrom geometry view chain property i = none := by
  rw [lookupFrom, Nat.sub_eq_zero_of_le past]
  rfl

theorem lookupFrom_step (inside : i < dirEntries geometry chain) :
    lookupFrom geometry view chain property i =
      if entryIs geometry view chain entryEnds i then none
      else if entryIs geometry view chain property i then some i
      else lookupFrom geometry view chain property (i + 1) := by
  have more : dirEntries geometry chain - i = dirEntries geometry chain - (i + 1) + 1 := by omega
  rw [lookupFrom, more, List.range'_succ, List.takeWhile_cons]
  split
  case isTrue proper =>
    rw [Bool.not_eq_true'] at proper
    rw [proper, if_neg Bool.false_ne_true, List.find?_cons]
    split
    case h_1 same => rw [same, if_pos rfl]
    case h_2 other =>
      rw [other, if_neg Bool.false_ne_true]
      rfl
  case isFalse ends =>
    rw [Bool.not_eq_true', Bool.not_eq_false] at ends
    rw [ends, if_pos rfl]
    rfl

end Table

/-- A directory that is whole, with its clusters. -/
inductive Directory (vol : Volume) : Nat → List Nat → Prop
  | static (type : vol.fs.fsType ≠ .fat32) : Directory vol 0 []
  | chained {sclust first : Nat} {rest : List Nat} (start : vol.fs.dirStart sclust = first)
      (clusters : ∀ clst ∈ first :: rest, 2 ≤ clst ∧ clst < vol.fs.nFatent)
      (linked : (first :: rest).IsChain
        fun clst next => fatEntry vol.fs.toGeometry vol.view clst = next)
      (ends : ∀ last ∈ (first :: rest).getLast?,
        vol.fs.nFatent ≤ fatEntry vol.fs.toGeometry vol.view last) :
      Directory vol sclust (first :: rest)

/-- The directory object is at an entry. -/
structure DirAt (geometry : Geometry) (chain : List Nat) (i : Nat) (dj : Dir) : Prop where
  index : dj.index = i
  clust : dj.clust = chain.getD (i / 16 / geometry.csize) 0
  sect : dj.sect = dirSector geometry chain (i / 16)
  dir : dj.dir = some (i % 16 * 32)

section Find

variable {vol : Volume} {sclust : Nat} {chain : List Nat}

theorem Directory.moves {after : Volume} (layout : Layout vol.fs.toGeometry)
    (moves : Moves vol after)
    (directory : Directory vol sclust chain) : Directory after sclust chain := by
  have geometry := moves.geometry
  cases directory with
  | static type => exact .static (geometry ▸ type)
  | @chained _ first rest start clusters linked ends =>
      have entry {clst : Nat} (inside : clst ∈ first :: rest) :=
        moves.fatEntry layout (clusters clst inside).2
      refine .chained (geometry ▸ start) (geometry ▸ clusters)
        (linked.imp_of_mem_imp fun clst next inside _ linked => ?_) fun last final => ?_
      · rw [entry inside]
        exact linked
      · rw [entry (List.mem_of_getLast? final), geometry]
        exact ends last final

theorem Directory.sectors (layout : Layout vol.fs.toGeometry)
    (directory : Directory vol sclust chain) :
    0 < dirSectors vol.fs.toGeometry chain := by
  cases directory with
  | static type =>
      have root := layout.root type
      rw [dirSectors]
      omega
  | chained start clusters linked ends => exact Nat.mul_pos layout.csize_pos (Nat.succ_pos _)

theorem cluster_at {geometry : Geometry} {k : Nat} (place : k / geometry.csize < chain.length) :
    chain[geometry.clusterNo (512 * k)]? = some chain[k / geometry.csize] := by
  rw [Geometry.clusterNo, Nat.mul_div_cancel_left _ (by decide)]
  exact List.getElem?_eq_getElem place

theorem Directory.sector (layout : Layout vol.fs.toGeometry)
    (directory : Directory vol sclust chain)
    {k : Nat} (inside : k < dirSectors vol.fs.toGeometry chain) :
    dirSector vol.fs.toGeometry chain k ≠ 0 ∧ dirSector vol.fs.toGeometry chain k < 2 ^ 32 ∧
      ¬ vol.fs.InCopies (dirSector vol.fs.toGeometry chain k) := by
  have fatbase := layout.fatbase
  have fatEnd := layout.fatEnd
  cases directory with
  | static type =>
      have root := layout.root type
      rw [dirSectors] at inside
      rw [dirSector]
      refine ⟨by omega, by omega, fun within => ?_⟩
      have before := within.2
      omega
  | chained start clusters linked ends =>
      have place := (lt_dirSectors layout).mp inside
      have member := clusters _ (List.getElem_mem place)
      obtain ⟨-, -, data, fits⟩ :=
        clust2sect_sectorOf layout member.1 member.2 (cluster_at place)
      have database := layout.database
      have sector := Nat.mod_lt (512 * k / 512) layout.csize_pos
      rw [dirSector]
      refine ⟨by omega, by omega, fun within => ?_⟩
      have before := within.2
      omega

theorem clust2sect_dirSector (layout : Layout vol.fs.toGeometry) {first k : Nat} {rest : List Nat}
    (clusters : ∀ clst ∈ first :: rest, 2 ≤ clst ∧ clst < vol.fs.nFatent)
    (place : k / vol.fs.csize < (first :: rest).length) (whole : k % vol.fs.csize = 0) :
    clust2sect vol.fs.toGeometry (first :: rest)[k / vol.fs.csize] =
      dirSector vol.fs.toGeometry (first :: rest) k := by
  have member := clusters _ (List.getElem_mem place)
  rw [clust2sect_eq layout member.1 member.2, dirSector, sectorOf, Geometry.clusterNo,
    Nat.mul_div_cancel_left _ (by decide), whole, List.getD_eq_getElem?_getD,
    List.getElem?_eq_getElem place, Option.getD_some, Nat.add_zero]

theorem dirSdi_at (layout : Layout vol.fs.toGeometry) (directory : Directory vol sclust chain)
    {dj : Dir} (start : dj.sclust = sclust) :
    ∃ dj', dirSdi dj vol 0 = (.ok, dj', vol) ∧ dj'.sclust = sclust ∧
      DirAt vol.fs.toGeometry chain 0 dj' := by
  have entries := layout.entries
  have fatEnd := layout.fatEnd
  have sectors := directory.sectors layout
  obtain ⟨-, range, -⟩ := directory.sector layout sectors
  cases directory with
  | static type =>
      have root := layout.root type
      have root' : vol.fs.dirStart 0 = 0 := if_neg fun fat32 => type fat32.2
      rw [dirSdi, start, if_neg (by omega), root', if_pos rfl, if_neg (by omega)]
      exact ⟨_, rfl, rfl, rfl, rfl, dword_eq range, rfl⟩
  | @chained _ first rest begins clusters linked ends =>
      have member := clusters first List.mem_cons_self
      have proper : ¬ (sclust = 1 ∨ vol.fs.nFatent ≤ sclust) := by
        rw [Geometry.dirStart] at begins
        split at begins
        · omega
        · omega
      have place : 0 / vol.fs.csize < (first :: rest).length := by
        rw [Nat.zero_div]
        exact Nat.succ_pos _
      have sector := clust2sect_dirSector layout clusters place (Nat.zero_mod _)
      simp only [Nat.zero_div, List.getElem_cons_zero] at sector
      rw [dirSdi, start, if_neg proper, begins, if_neg (by omega), followChain]
      refine ⟨_, rfl, rfl, rfl, ?_, ?_, rfl⟩
      · rw [Nat.zero_div, Nat.zero_div]
        rfl
      · dsimp only
        rw [sector]
        exact dword_eq range

/-- What `dir_next` may do at entry `i`. -/
structure Advances (vol : Volume) (chain : List Nat) (i : Nat) (dj : Dir)
    (next : FResult × Dir × Volume) : Prop where
  moves : Moves vol next.2.2
  sclust : next.2.1.sclust = dj.sclust
  outcome :
    next.1 = .ok ∧ i + 1 < dirEntries vol.fs.toGeometry chain ∧
        DirAt vol.fs.toGeometry chain (i + 1) next.2.1 ∨
      next.1 = .noFile ∧ dirEntries vol.fs.toGeometry chain ≤ i + 1 ∨
      next.1 = .diskErr ∧ ¬ vol.disk.Healthy

theorem dirSector_succ (layout : Layout vol.fs.toGeometry) {first k : Nat} {rest : List Nat}
    (within : (k + 1) % vol.fs.csize ≠ 0) :
    dirSector vol.fs.toGeometry (first :: rest) (k + 1) =
      dirSector vol.fs.toGeometry (first :: rest) k + 1 := by
  have small := Nat.mod_lt k layout.csize_pos
  have room : k % vol.fs.csize + 1 < vol.fs.csize := by
    refine Nat.lt_of_le_of_ne small fun full => within ?_
    rw [← Nat.mod_add_mod, full, Nat.mod_self]
  rw [dirSector, dirSector, Nat.mul_succ]
  refine sectorOf_add (i := 1) ?_
  rw [Nat.mul_div_cancel_left _ (by decide)]
  exact room

theorem DirAt.cluster {geometry : Geometry} {i : Nat} {dj : Dir} (place : DirAt geometry chain i dj)
    (here : i / 16 / geometry.csize < chain.length) :
    dj.clust = chain[i / 16 / geometry.csize] := by
  rw [place.clust, List.getD_eq_getElem?_getD, List.getElem?_eq_getElem here, Option.getD_some]

section NextSector

variable {i first : Nat} {rest : List Nat} {dj : Dir} (layout : Layout vol.fs.toGeometry)
  (coherent : Coherent vol) (boundary : (i + 1) % 16 = 0) (small : i + 1 < 2 ^ 16)

include layout coherent boundary small

theorem nextSector_static (type : vol.fs.fsType ≠ .fat32)
    (place : DirAt vol.fs.toGeometry [] i dj) :
    Advances vol [] i dj (nextSector dj vol (i + 1)) := by
  have next : (i + 1) / 16 = i / 16 + 1 := by omega
  have root := layout.root type
  have fatEnd := layout.fatEnd
  rw [nextSector]
  dsimp only
  rw [if_pos (show dj.clust = 0 from place.clust)]
  split
  case isTrue last =>
    refine ⟨.refl coherent, rfl, .inr (.inl ⟨rfl, ?_⟩)⟩
    rw [dirEntries, dirSectors]
    omega
  case isFalse more =>
    refine ⟨.refl coherent, rfl, .inl ⟨rfl, ?_, rfl, place.clust, ?_, rfl⟩⟩
    · rw [dirEntries, dirSectors]
      omega
    · have sect : dj.sect = vol.fs.dirbase + i / 16 := place.sect
      rw [next]
      exact (congrArg (fun sect => dword (sect + 1)) sect).trans (dword_eq (by omega))

theorem nextSector_within (directory : Directory vol sclust (first :: rest))
    (place : DirAt vol.fs.toGeometry (first :: rest) i dj) (started : dj.clust ≠ 0)
    (here : i / 16 / vol.fs.csize < (first :: rest).length)
    (within : (i / 16 + 1) % vol.fs.csize ≠ 0) :
    Advances vol (first :: rest) i dj (nextSector dj vol (i + 1)) := by
  have next : (i + 1) / 16 = i / 16 + 1 := by omega
  have same : (i / 16 + 1) / vol.fs.csize = i / 16 / vol.fs.csize := by
    rw [Nat.succ_div, if_neg fun divides => within (Nat.mod_eq_zero_of_dvd divides), Nat.add_zero]
  have inside : i / 16 + 1 < dirSectors vol.fs.toGeometry (first :: rest) := by
    rw [lt_dirSectors layout, same]
    exact here
  have sector : dirSector vol.fs.toGeometry (first :: rest) (i / 16 + 1) = _ :=
    dirSector_succ layout within
  obtain ⟨-, range, -⟩ := directory.sector layout inside
  rw [nextSector]
  dsimp only
  rw [if_neg started, next, layout.mask_eq, if_neg within]
  refine ⟨.refl coherent, rfl, .inl ⟨rfl, ?_, rfl, ?_, ?_, rfl⟩⟩
  · rw [dirEntries]
    omega
  · rw [next, same]
    exact place.clust
  · rw [next, sector, ← place.sect]
    refine dword_eq ?_
    rw [place.sect, ← sector]
    exact range

theorem nextSector_linked (place : DirAt vol.fs.toGeometry (first :: rest) i dj)
    (here : i / 16 / vol.fs.csize < (first :: rest).length)
    (clusters : ∀ clst ∈ first :: rest, 2 ≤ clst ∧ clst < vol.fs.nFatent)
    (linked : (first :: rest).IsChain fun clst next =>
      fatEntry vol.fs.toGeometry vol.view clst = next)
    (ends : ∀ last ∈ (first :: rest).getLast?,
      vol.fs.nFatent ≤ fatEntry vol.fs.toGeometry vol.view last)
    (whole : (i / 16 + 1) % vol.fs.csize = 0) :
    Advances vol (first :: rest) i dj (nextSector dj vol (i + 1)) := by
  have next : (i + 1) / 16 = i / 16 + 1 := by omega
  have step : (i / 16 + 1) / vol.fs.csize = i / 16 / vol.fs.csize + 1 := by
    rw [Nat.succ_div, if_pos (Nat.dvd_of_mod_eq_zero whole)]
  have clust := place.cluster here
  have member := clusters _ (List.getElem_mem here)
  rw [← clust] at member
  obtain ⟨moves, answers, works⟩ := getFat_reads layout coherent member.1 member.2
  have entry : fatEntry vol.fs.toGeometry vol.view dj.clust < 2 ^ 28 := fatEntry_lt layout vol.view
  have geometry := moves.geometry
  rw [nextSector]
  dsimp only
  rw [if_neg (by omega), next, layout.mask_eq, if_pos whole]
  generalize getFat vol dj.clust = answer at moves answers works geometry ⊢
  obtain ⟨clst, vol'⟩ := answer
  dsimp only at moves answers works geometry ⊢
  rcases answers with rfl | rfl
  · rw [geometry]
    by_cases more : i / 16 / vol.fs.csize + 1 < (first :: rest).length
    case pos =>
      have linked := List.isChain_iff_getElem.mp linked _ more
      rw [← clust] at linked
      have valid := clusters _ (List.getElem_mem more)
      rw [← linked] at valid
      have place' : (i / 16 + 1) / vol.fs.csize < (first :: rest).length := step ▸ more
      have inside := (lt_dirSectors layout).mpr place'
      rw [if_neg (by omega), if_neg (by rw [diskError]; omega), if_neg (by omega)]
      refine ⟨moves, rfl, .inl ⟨rfl, ?_, rfl, ?_, ?_, rfl⟩⟩
      · rw [dirEntries]
        omega
      · rw [next, step, List.getD_eq_getElem?_getD, List.getElem?_eq_getElem more,
          Option.getD_some, ← linked]
        rfl
      · have sector := clust2sect_dirSector layout clusters place' whole
        simp only [step] at sector
        rw [← linked] at sector
        rw [next]
        dsimp only [Dir.point]
        exact sector
    case neg =>
      have final : (first :: rest).getLast? = some dj.clust := by
        have last : (first :: rest).length - 1 = i / 16 / vol.fs.csize :=
          Nat.sub_eq_of_eq_add (Nat.le_antisymm (Nat.not_lt.mp more) here)
        rw [List.getLast?_eq_getElem?, last, clust, ← List.getElem?_eq_getElem here]
      have past := ends _ final
      rw [if_neg (by omega), if_neg (by rw [diskError]; omega), if_pos past]
      refine ⟨moves, rfl, .inr (.inl ⟨rfl, ?_⟩)⟩
      have full : ¬ i / 16 + 1 < dirSectors vol.fs.toGeometry (first :: rest) := by
        rw [lt_dirSectors layout, step]
        exact more
      rw [dirEntries]
      omega
  · have failed : fatEntry vol.fs.toGeometry vol.view dj.clust ≠ diskError := by
      rw [diskError]
      omega
    rw [if_neg (by decide), if_pos rfl]
    exact ⟨moves, rfl, .inr (.inr ⟨rfl, fun healthy => failed (works healthy).symm⟩)⟩

theorem nextSector_advances (directory : Directory vol sclust chain)
    (place : DirAt vol.fs.toGeometry chain i dj) (inside : i < dirEntries vol.fs.toGeometry chain) :
    Advances vol chain i dj (nextSector dj vol (i + 1)) := by
  have reach : i / 16 < dirSectors vol.fs.toGeometry chain := by
    rw [dirEntries] at inside
    omega
  have directory' := directory
  cases directory with
  | static type => exact nextSector_static layout coherent boundary small type place
  | chained begins clusters linked ends =>
      have here := (lt_dirSectors layout).mp reach
      by_cases whole : (i / 16 + 1) % vol.fs.csize = 0
      case pos =>
        exact nextSector_linked layout coherent boundary small place here clusters linked ends whole
      case neg =>
        have valid := (clusters _ (List.getElem_mem here)).1
        rw [← place.cluster here] at valid
        exact nextSector_within layout coherent boundary small directory' place (by omega) here
          whole

end NextSector

theorem dirNext_advances (layout : Layout vol.fs.toGeometry) (coherent : Coherent vol)
    (directory : Directory vol sclust chain) {i : Nat} {dj : Dir}
    (place : DirAt vol.fs.toGeometry chain i dj) (inside : i < dirEntries vol.fs.toGeometry chain) :
    Advances vol chain i dj (dirNext dj vol) := by
  have reach : i < 16 * dirSectors vol.fs.toGeometry chain ∧ i < 2 ^ 16 := by
    rw [dirEntries] at inside
    omega
  obtain ⟨some, -, -⟩ := directory.sector layout (k := i / 16) (by omega)
  rw [dirNext, place.index, place.sect]
  split
  case isTrue last =>
    refine ⟨.refl coherent, rfl, .inr (.inl ⟨rfl, ?_⟩)⟩
    rw [dirEntries]
    omega
  case isFalse more =>
    rw [Nat.mod_eq_of_lt (show i + 1 < 2 ^ 16 by omega)]
    split
    case isTrue boundary =>
      exact nextSector_advances layout coherent boundary (by omega) directory place inside
    case isFalse middle =>
      have same : (i + 1) / 16 = i / 16 := by omega
      refine ⟨.refl coherent, rfl, .inl ⟨rfl, ?_, rfl, ?_, ?_, rfl⟩⟩
      · rw [dirEntries]
        omega
      · rw [same]
        exact place.clust
      · rw [same]
        exact place.sect

/-- A search: it stops at the entry that `lookup` finds, or fails with the disk. -/
structure Finds (vol : Volume) (sclust : Nat) (chain : List Nat) (found : Option Nat)
    (result : FResult × Dir × Volume) : Prop where
  moves : Moves vol result.2.2
  sclust : result.2.1.sclust = sclust
  outcome :
    (∃ i, found = some i ∧ i < dirEntries vol.fs.toGeometry chain ∧ result.1 = .ok ∧
        DirAt vol.fs.toGeometry chain i result.2.1 ∧
        result.2.2.fs.win = vol.view (dirSector vol.fs.toGeometry chain (i / 16))) ∨
      found = none ∧ result.1 = .noFile ∨
      result.1 = .diskErr ∧ ¬ vol.disk.Healthy

theorem Finds.after {moved : Volume} (layout : Layout vol.fs.toGeometry)
    (directory : Directory vol sclust chain) (moves : Moves vol moved)
    {found : Option Nat} {result : FResult × Dir × Volume}
    (finds : Finds moved sclust chain found result) : Finds vol sclust chain found result := by
  have geometry := moves.geometry
  refine ⟨moves.trans finds.moves, finds.sclust, ?_⟩
  rcases finds.outcome with ⟨i, same, inside, ok, place, win⟩ | missing | ⟨failed, faulty⟩
  · rw [geometry] at inside place win
    have reach : i / 16 < dirSectors vol.fs.toGeometry chain := by
      rw [dirEntries] at inside
      omega
    rw [moves.view _ (directory.sector layout reach).2.2] at win
    exact .inl ⟨i, same, inside, ok, place, win⟩
  · exact .inr (.inl missing)
  · exact .inr (.inr ⟨failed, fun healthy => faulty (moves.healthy healthy)⟩)

theorem Directory.entryIs_moves {moved : Volume} (layout : Layout vol.fs.toGeometry)
    (directory : Directory vol sclust chain) (moves : Moves vol moved)
    {i : Nat} (inside : i < dirEntries vol.fs.toGeometry chain) (property : Sector → Nat → Bool) :
    entryIs moved.fs.toGeometry moved.view chain property i =
      entryIs vol.fs.toGeometry vol.view chain property i := by
  have reach : i / 16 < dirSectors vol.fs.toGeometry chain := by
    rw [dirEntries] at inside
    omega
  rw [entryIs, entryIs, moves.geometry, moves.view _ (directory.sector layout reach).2.2]

theorem Directory.lookupFrom_moves {moved : Volume} (layout : Layout vol.fs.toGeometry)
    (directory : Directory vol sclust chain) (moves : Moves vol moved)
    (property : Sector → Nat → Bool) (i : Nat) :
    lookupFrom moved.fs.toGeometry moved.view chain property i =
      lookupFrom vol.fs.toGeometry vol.view chain property i := by
  have entries : dirEntries moved.fs.toGeometry chain = dirEntries vol.fs.toGeometry chain := by
    rw [moves.geometry]
  induction left : dirEntries vol.fs.toGeometry chain - i generalizing i with
  | zero => rw [lookupFrom_end (by omega), lookupFrom_end (by omega)]
  | succ left' ih =>
      have inside : i < dirEntries vol.fs.toGeometry chain := by omega
      rw [lookupFrom_step (by omega), lookupFrom_step inside,
        directory.entryIs_moves layout moves inside, directory.entryIs_moves layout moves inside,
        ih (i + 1) (by omega)]

theorem findEntry_finds {name : List (BitVec 8)} {entries i : Nat} {dj : Dir}
    (layout : Layout vol.fs.toGeometry) (coherent : Coherent vol)
    (directory : Directory vol sclust chain) (start : dj.sclust = sclust)
    (place : DirAt vol.fs.toGeometry chain i dj) (inside : i < dirEntries vol.fs.toGeometry chain)
    (enough : dirEntries vol.fs.toGeometry chain ≤ i + entries) :
    Finds vol sclust chain (lookupFrom vol.fs.toGeometry vol.view chain (entryMatches name) i)
      (findEntry name entries dj vol) := by
  induction entries generalizing vol dj i with
  | zero => omega
  | succ entries ih =>
      have reach : i / 16 < dirSectors vol.fs.toGeometry chain := by
        rw [dirEntries] at inside
        omega
      obtain ⟨some, range, other⟩ := directory.sector layout reach
      obtain ⟨moves, -, works⟩ := moveWindow_moves layout coherent some range
      have shown := moveWindow_win layout coherent some range other
      rw [findEntry, place.sect, place.dir, Option.getD_some, lookupFrom_step inside]
      generalize moveWindow vol (dirSector vol.fs.toGeometry chain (i / 16)) = answer
        at moves works shown ⊢
      obtain ⟨_ | _, vol'⟩ := answer
      · exact ⟨moves, start, .inr (.inr ⟨rfl, fun healthy => Bool.false_ne_true (works healthy)⟩)⟩
      · dsimp only at moves shown ⊢
        have win := shown rfl
        rw [win, entryIs, entryIs]
        split
        case isTrue ends => exact ⟨moves, start, .inr (.inl ⟨rfl, rfl⟩)⟩
        case isFalse proper =>
          split
          case isTrue same => exact ⟨moves, start, .inl ⟨i, rfl, inside, rfl, place, win⟩⟩
          case isFalse different =>
            have layout' : Layout vol'.fs.toGeometry := moves.geometry ▸ layout
            have directory' := directory.moves layout moves
            have advances := dirNext_advances layout' moves.coherent directory'
              (moves.geometry ▸ place) (moves.geometry ▸ inside)
            generalize dirNext dj vol' = next at advances ⊢
            obtain ⟨res, dj', vol''⟩ := next
            obtain ⟨moves', sclust', outcome⟩ := advances
            dsimp only at moves' sclust' outcome
            rw [← directory.lookupFrom_moves layout moves]
            refine Finds.after layout directory moves ?_
            rcases outcome with ⟨rfl, more, place'⟩ | ⟨rfl, past⟩ | ⟨rfl, faulty⟩
            · dsimp only
              rw [← directory'.lookupFrom_moves layout' moves']
              refine Finds.after layout' directory' moves' ?_
              have geometry := moves'.geometry
              exact ih (geometry ▸ layout') moves'.coherent (directory'.moves layout' moves')
                (sclust'.trans start) (geometry ▸ place') (geometry ▸ more)
                (by rw [geometry, moves.geometry]; omega)
            · rw [lookupFrom_end past]
              exact ⟨moves', sclust'.trans start, .inr (.inl ⟨rfl, rfl⟩)⟩
            · exact ⟨moves', sclust'.trans start, .inr (.inr ⟨rfl, faulty⟩)⟩

/-- `dir_find` finds the first entry of the name before the end of the table, in whatever
sectors the directory is. -/
theorem dirFind_finds (layout : Layout vol.fs.toGeometry) (coherent : Coherent vol)
    (directory : Directory vol sclust chain) {dj : Dir} (start : dj.sclust = sclust)
    (name : List (BitVec 8)) :
    Finds vol sclust chain (lookup vol.fs.toGeometry vol.view chain name)
      (dirFind dj vol name) := by
  obtain ⟨dj', same, start', place⟩ := dirSdi_at layout directory start
  have sectors := directory.sectors layout
  rw [dirFind, same, lookup]
  refine findEntry_finds layout coherent directory start' place ?_ ?_
  · rw [dirEntries]
    omega
  · rw [dirEntries]
    omega

end Find

end Synesthesia.FatFs
