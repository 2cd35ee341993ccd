/-
`ff.c`: the entries of the file allocation table.

The table is a sequence of bytes.  An entry of a FAT12 volume takes one and a half of
them, so that two entries share a byte and one entry may lie in two sectors.
-/

import Synesthesia.Fatfs.Volume

namespace Synesthesia.FatFs

def byteAt (win : Sector) (offset : Nat) : BitVec 8 := win (BitVec.ofNat 9 offset)

def ldWord (win : Sector) (offset : Nat) : BitVec 16 := byteAt win (offset + 1) ++ byteAt win offset

def ldDword (win : Sector) (offset : Nat) : BitVec 32 :=
  byteAt win (offset + 3) ++ byteAt win (offset + 2) ++ byteAt win (offset + 1) ++ byteAt win offset

/-- `clust2sect` (0: Failed - invalid cluster#). -/
def clust2sect (geometry : Geometry) (clst : Nat) : Nat :=
  if dword (geometry.nFatent + 2 ^ 32 - 2) ≤ dword (clst + 2 ^ 32 - 2) then 0
  else dword (dword (clst + 2 ^ 32 - 2) * geometry.csize + geometry.database)

def diskError : Nat := 0xFFFFFFFF

/-- `get_fat` (0xFFFFFFFF: Disk error, 1: Internal error, Else: Cluster status). -/
def getFat (vol : Volume) (clst : Nat) : Nat × Volume :=
  if clst < 2 ∨ vol.fs.nFatent ≤ clst then (1, vol)
  else
    match vol.fs.fsType with
    | .fat12 =>
        let bc := dword (clst + clst / 2)
        match moveWindow vol (dword (vol.fs.fatbase + bc / 512)) with
        | (false, vol) => (diskError, vol)
        | (true, vol) =>
            let low := byteAt vol.fs.win (bc % 512)
            match moveWindow vol (dword (vol.fs.fatbase + (bc + 1) / 512)) with
            | (false, vol) => (diskError, vol)
            | (true, vol) =>
                let wc := byteAt vol.fs.win ((bc + 1) % 512) ++ low
                (if clst % 2 = 1 then (wc >>> 4).toNat else (wc &&& 0xFFF).toNat, vol)
    | .fat16 =>
        match moveWindow vol (dword (vol.fs.fatbase + clst / (512 / 2))) with
        | (false, vol) => (diskError, vol)
        | (true, vol) => ((ldWord vol.fs.win (clst * 2 % 512)).toNat, vol)
    | .fat32 =>
        match moveWindow vol (dword (vol.fs.fatbase + clst / (512 / 4))) with
        | (false, vol) => (diskError, vol)
        | (true, vol) => ((ldDword vol.fs.win (clst * 4 % 512) &&& 0x0FFFFFFF).toNat, vol)
    | .none => (diskError, vol)

/-! ### The table in the volume -/

section Table

variable (geometry : Geometry) (view : Nat → Sector)

def fatByte (offset : Nat) : BitVec 8 :=
  byteAt (view (geometry.fatbase + offset / 512)) (offset % 512)

def fatWord (offset : Nat) : BitVec 16 :=
  fatByte geometry view (offset + 1) ++ fatByte geometry view offset

def fatDword (offset : Nat) : BitVec 32 :=
  fatByte geometry view (offset + 3) ++ fatByte geometry view (offset + 2) ++
    fatByte geometry view (offset + 1) ++ fatByte geometry view offset

def fatEntry (clst : Nat) : Nat :=
  match geometry.fsType with
  | .none => diskError
  | .fat12 =>
      let wc := fatWord geometry view (clst + clst / 2)
      if clst % 2 = 1 then (wc >>> 4).toNat else (wc &&& 0xFFF).toNat
  | .fat16 => (fatWord geometry view (clst * 2)).toNat
  | .fat32 => (fatDword geometry view (clst * 4) &&& 0x0FFFFFFF).toNat

end Table

variable {geometry : Geometry} {vol : Volume} {clst : Nat}

theorem clust2sect_eq (layout : Layout geometry) (valid : 2 ≤ clst)
    (inside : clst < geometry.nFatent) :
    clust2sect geometry clst = geometry.database + (clst - 2) * geometry.csize := by
  have entries := layout.entries
  have lift {n : Nat} (two : 2 ≤ n) (small : n < 2 ^ 32) : dword (n + 2 ^ 32 - 2) = n - 2 := by
    rw [dword]
    omega
  have room : (clst - 2) * geometry.csize + geometry.csize ≤
      (geometry.nFatent - 2) * geometry.csize := by
    rw [← Nat.succ_mul]
    exact Nat.mul_le_mul_right _ (by omega)
  obtain ⟨power, -, csize⟩ := layout.csize
  have positive : 0 < geometry.csize := by
    rw [csize]
    exact Nat.two_pow_pos power
  have fits := layout.fits
  rw [clust2sect, lift valid (by omega), lift (by omega) (by omega), if_neg (by omega),
    dword_eq (by omega), Nat.add_comm]

theorem fat_sector (layout : Layout geometry) {offset : Nat} (inside : offset < geometry.fatBytes) :
    dword (geometry.fatbase + offset / 512) = geometry.fatbase + offset / 512 ∧
      geometry.fatbase + offset / 512 ≠ 0 ∧ geometry.fatbase + offset / 512 < 2 ^ 32 ∧
      ¬ geometry.InCopies (geometry.fatbase + offset / 512) := by
  obtain ⟨fatEnd, small⟩ := layout.fatEnd
  have fat := layout.fat
  have fatbase := layout.fatbase
  refine ⟨dword_eq (by omega), by omega, by omega, fun within => ?_⟩
  have after := within.1
  omega

theorem offset_lt (inside : clst < geometry.nFatent) :
    (geometry.fsType = .fat12 → clst + clst / 2 + 1 < geometry.fatBytes) ∧
      (geometry.fsType = .fat16 → clst * 2 + 1 < geometry.fatBytes) ∧
      (geometry.fsType = .fat32 → clst * 4 + 3 < geometry.fatBytes) := by
  refine ⟨fun type => ?_, fun type => ?_, fun type => ?_⟩
  · simp only [Geometry.fatBytes, type]
    rcases Nat.mod_two_eq_zero_or_one geometry.nFatent with even | odd
    · omega
    · omega
  · simp only [Geometry.fatBytes, type]
    omega
  · simp only [Geometry.fatBytes, type]
    omega

theorem fatEntry_congr {view view' : Nat → Sector}
    (bytes : ∀ offset < geometry.fatBytes,
      fatByte geometry view' offset = fatByte geometry view offset)
    (inside : clst < geometry.nFatent) :
    fatEntry geometry view' clst = fatEntry geometry view clst := by
  obtain ⟨low12, low16, low32⟩ := offset_lt inside
  cases type : geometry.fsType with
  | none => simp only [fatEntry, type]
  | fat12 =>
      have last := low12 type
      simp only [fatEntry, type, fatWord, bytes _ last, bytes _ (Nat.lt_of_succ_lt last)]
  | fat16 =>
      have last := low16 type
      simp only [fatEntry, type, fatWord, bytes _ last, bytes _ (Nat.lt_of_succ_lt last)]
  | fat32 =>
      have last := low32 type
      simp only [fatEntry, type, fatDword, bytes (clst * 4 + 3) last,
        bytes (clst * 4 + 2) (by omega), bytes (clst * 4 + 1) (by omega),
        bytes (clst * 4) (by omega)]

/-- The table is not in its copies, so moves of the window leave it alone. -/
theorem Moves.fatByte {after : Volume} (layout : Layout vol.fs.toGeometry) (moves : Moves vol after)
    (offset : Nat) (inside : offset < vol.fs.fatBytes) :
    FatFs.fatByte vol.fs.toGeometry after.view offset =
      FatFs.fatByte vol.fs.toGeometry vol.view offset := by
  rw [FatFs.fatByte, FatFs.fatByte, moves.view _ (fat_sector layout inside).2.2.2]

theorem Moves.fatEntry {after : Volume} (layout : Layout vol.fs.toGeometry)
    (moves : Moves vol after)
    (inside : clst < vol.fs.nFatent) :
    FatFs.fatEntry after.fs.toGeometry after.view clst =
      FatFs.fatEntry vol.fs.toGeometry vol.view clst := by
  rw [moves.geometry]
  exact fatEntry_congr (moves.fatByte layout) inside

theorem fatEntry_lt (layout : Layout geometry) (view : Nat → Sector) :
    fatEntry geometry view clst < 2 ^ 28 := by
  cases type : geometry.fsType with
  | none => exact absurd type layout.mounted
  | fat12 =>
      simp only [fatEntry, type]
      split
      · exact Nat.lt_of_lt_of_le (BitVec.isLt _) (by decide)
      · exact Nat.lt_of_lt_of_le (BitVec.isLt _) (by decide)
  | fat16 =>
      simp only [fatEntry, type]
      exact Nat.lt_of_lt_of_le (BitVec.isLt _) (by decide)
  | fat32 =>
      simp only [fatEntry, type, BitVec.toNat_and]
      exact Nat.lt_of_le_of_lt Nat.and_le_right
        (show (0x0FFFFFFF : BitVec 32).toNat < 2 ^ 28 by decide)

theorem moveWindow_fat (layout : Layout vol.fs.toGeometry) (coherent : Coherent vol) {offset : Nat}
    (inside : offset < vol.fs.fatBytes) :
    let moved := moveWindow vol (dword (vol.fs.fatbase + offset / 512))
    Moves vol moved.2 ∧ (vol.disk.Healthy → moved.1 = true) ∧
      (moved.1 = true → ∀ probe < vol.fs.fatBytes, probe / 512 = offset / 512 →
        byteAt moved.2.fs.win (probe % 512) = fatByte vol.fs.toGeometry vol.view probe) := by
  intro moved
  obtain ⟨same, some, range, other⟩ := fat_sector layout inside
  obtain ⟨moves, -, works⟩ := moveWindow_moves layout coherent some range
  rw [← same] at moves works
  refine ⟨moves, works, fun here probe _ sector => ?_⟩
  have win := moveWindow_win layout coherent some range other (by rw [← same]; exact here)
  rw [← same] at win
  rw [fatByte, sector, win, same]

/-- An answer and the volume after it: the value, or a disk error. -/
structure Reads (vol : Volume) (answer : Nat × Volume) (value : Nat) : Prop where
  moves : Moves vol answer.2
  answers : answer.1 = value ∨ answer.1 = diskError
  works : vol.disk.Healthy → answer.1 = value

theorem reads_through (layout : Layout vol.fs.toGeometry) (coherent : Coherent vol) {offset : Nat}
    (inside : offset < vol.fs.fatBytes) {rest : Volume → Nat × Volume} {value : Nat}
    (shown : ∀ moved, Moves vol moved →
      (∀ probe < vol.fs.fatBytes, probe / 512 = offset / 512 →
        byteAt moved.fs.win (probe % 512) = fatByte vol.fs.toGeometry vol.view probe) →
      Reads moved (rest moved) value) :
    Reads vol
      (match moveWindow vol (dword (vol.fs.fatbase + offset / 512)) with
        | (false, moved) => (diskError, moved)
        | (true, moved) => rest moved) value := by
  obtain ⟨moves, works, bytes⟩ := moveWindow_fat layout coherent inside
  rcases same : moveWindow vol (dword (vol.fs.fatbase + offset / 512)) with ⟨_ | _, moved⟩
  · rw [same] at moves works
    exact ⟨moves, .inr rfl, fun healthy => absurd (works healthy) Bool.false_ne_true⟩
  · rw [same] at moves bytes
    obtain ⟨later, read, well⟩ := shown moved moves (bytes rfl)
    exact ⟨moves.trans later, read, fun healthy => well (moves.healthy healthy)⟩

theorem reads_value {value : Nat} (coherent : Coherent vol) {answer : Nat} (same : answer = value) :
    Reads vol (answer, vol) value :=
  ⟨.refl coherent, .inl same, fun _ => same⟩

/-- `get_fat` reads the entry or fails, and changes nothing of what the volume holds. -/
theorem getFat_reads (layout : Layout vol.fs.toGeometry) (coherent : Coherent vol)
    (valid : 2 ≤ clst) (inside : clst < vol.fs.nFatent) :
    Reads vol (getFat vol clst) (fatEntry vol.fs.toGeometry vol.view clst) := by
  obtain ⟨low12, low16, low32⟩ := offset_lt inside
  have entries := layout.entries
  rw [getFat, if_neg (by omega)]
  cases type : vol.fs.fsType with
  | none => exact absurd type layout.mounted
  | fat12 =>
      have last := low12 type
      dsimp only
      rw [dword_eq (show clst + clst / 2 < 2 ^ 32 by omega)]
      refine reads_through layout coherent (Nat.lt_of_succ_lt last) fun moved moves bytes => ?_
      have low := bytes _ (Nat.lt_of_succ_lt last) rfl
      have kept := moves.fatByte layout _ last
      have layout' : Layout moved.fs.toGeometry := moves.geometry ▸ layout
      have last' : clst + clst / 2 + 1 < moved.fs.fatBytes := by
        rw [moves.geometry]
        exact last
      refine reads_through layout' moves.coherent last' fun moved' moves' bytes' =>
        reads_value moves'.coherent ?_
      have high := bytes' _ last' rfl
      rw [moves.geometry, kept] at high
      simp only [low, high, fatEntry, type, fatWord]
  | fat16 =>
      have last := low16 type
      rw [show clst / (512 / 2) = clst * 2 / 512 by omega]
      refine reads_through layout coherent (Nat.lt_of_succ_lt last) fun moved moves bytes =>
        reads_value moves.coherent ?_
      have high := bytes _ last (by omega)
      rw [show (clst * 2 + 1) % 512 = clst * 2 % 512 + 1 by omega] at high
      simp only [fatEntry, type, fatWord, ldWord, high, bytes _ (Nat.lt_of_succ_lt last) rfl]
  | fat32 =>
      have last := low32 type
      rw [show clst / (512 / 4) = clst * 4 / 512 by omega]
      refine reads_through layout coherent (show clst * 4 < _ by omega) fun moved moves bytes =>
        reads_value moves.coherent ?_
      have byte {k : Nat} (small : k < 4) : byteAt moved.fs.win (clst * 4 % 512 + k) =
          fatByte vol.fs.toGeometry vol.view (clst * 4 + k) := by
        have shown := bytes (clst * 4 + k) (by omega) (by omega)
        rw [show (clst * 4 + k) % 512 = clst * 4 % 512 + k by omega] at shown
        exact shown
      have first : byteAt moved.fs.win (clst * 4 % 512) = _ := byte (show 0 < 4 by decide)
      simp only [fatEntry, type, fatDword, ldDword, first, byte (show 1 < 4 by decide),
        byte (show 2 < 4 by decide), byte (show 3 < 4 by decide), Nat.add_zero]

end Synesthesia.FatFs
