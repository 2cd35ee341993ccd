/-
`cmd_cat` of `bash.c`: a file is typed through a buffer of 64 KiB.

`f_close` only flushes what was written and is left out, as are the messages for the results.
-/

import Synesthesia.Fatfs.Path

namespace Synesthesia.FatFs

/-! ### Calls of any sizes -/

/-- Calls of `f_read` one after the other, up to the first that fails. -/
def readAll : List Nat → Fil → Volume → ReadResult
  | [], fil, vol => { res := .ok, bytes := [], fil := fil, vol := vol }
  | btr :: rest, fil, vol =>
      let result := fRead fil vol btr
      if result.res = .ok then
        let more := readAll rest result.fil result.vol
        { more with bytes := result.bytes ++ more.bytes }
      else result

def ahead (vol : Volume) (fil : Fil) (chain : List Nat) : List (BitVec 8) :=
  slice vol.fs.toGeometry vol.view chain fil.fptr (fil.fsize - fil.fptr)

theorem slice_take (geometry : Geometry) (view : Nat → Sector) (chain : List Nat)
    {offset count all : Nat} (few : count ≤ all) :
    slice geometry view chain offset count = (slice geometry view chain offset all).take count := by
  rw [slice, slice, ← List.map_take, List.take_range, Nat.min_eq_left few]

theorem slice_drop (geometry : Geometry) (view : Nat → Sector) (chain : List Nat)
    {offset count all : Nat} (few : count ≤ all) :
    slice geometry view chain (offset + count) (all - count) =
      (slice geometry view chain offset all).drop count := by
  obtain ⟨rest, rfl⟩ := Nat.exists_eq_add_of_le few
  rw [slice_add, Nat.add_sub_cancel_left, List.drop_left' (length_slice ..)]

section Read

variable {vol : Volume} {fil : Fil} {chain : List Nat}

theorem length_ahead (vol : Volume) (fil : Fil) (chain : List Nat) :
    (ahead vol fil chain).length = fil.fsize - fil.fptr := length_slice ..

/-- A call of `f_read` against the bytes that lie ahead: it gives their beginning, and the
rest lies ahead of the next call. -/
structure ReadsAhead (vol : Volume) (fil : Fil) (chain : List Nat) (btr : Nat)
    (result : ReadResult) :
    Prop where
  part : result.bytes <+: ahead vol fil chain
  done : result.res = .ok → result.bytes = (ahead vol fil chain).take btr ∧
    Reading result.vol result.fil chain ∧
    ahead result.vol result.fil chain = (ahead vol fil chain).drop btr ∧
    result.fil.fsize = fil.fsize
  works : vol.disk.Healthy → result.res = .ok ∧ result.vol.disk.Healthy

theorem fRead_ahead (reading : Reading vol fil chain) (btr : Nat) :
    ReadsAhead vol fil chain btr (fRead fil vol btr) := by
  have read := fRead_reads reading btr
  generalize fRead fil vol btr = result at read ⊢
  have few := read.few
  have part : result.bytes = (ahead vol fil chain).take result.bytes.length := by
    rw [ahead, ← slice_take _ _ _ (by omega)]
    exact read.bytes
  refine
    { part := part ▸ List.take_prefix _ _
      done := fun ok => ?_
      works := fun healthy => ⟨read.works healthy, read.moves.healthy healthy⟩ }
  rcases read.outcome with ⟨-, all, reading'⟩ | failed
  case inr =>
    rw [ok] at failed
    rcases failed with failed | failed
    · cases failed
    · cases failed
  case inl =>
    have taken : (ahead vol fil chain).take btr =
        (ahead vol fil chain).take result.bytes.length := by
      rw [all, ← length_ahead vol fil chain, List.take_eq_take_min]
    have dropped : (ahead vol fil chain).drop btr =
        (ahead vol fil chain).drop result.bytes.length := by
      rw [all, ← length_ahead vol fil chain, List.drop_eq_drop_min]
    refine ⟨part.trans taken.symm, reading', ?_, read.fsize⟩
    have within := reading.place.within
    rw [dropped, ahead, ahead, ← slice_drop _ _ _ (by omega), read.fptr, read.fsize, ← Nat.sub_sub]
    exact reading.stored.slice_moves reading.layout read.moves (by omega)

/-- Whatever the sizes of the calls are, together they give the file from the file pointer
on, in order and without a gap. -/
theorem readAll_reads (reading : Reading vol fil chain) (sizes : List Nat) :
    (readAll sizes fil vol).bytes <+: ahead vol fil chain ∧
      ((readAll sizes fil vol).res = .ok →
        (readAll sizes fil vol).bytes = (ahead vol fil chain).take sizes.sum) ∧
      (vol.disk.Healthy → (readAll sizes fil vol).res = .ok) := by
  induction sizes generalizing vol fil with
  | nil => exact ⟨List.nil_prefix, fun _ => rfl, fun _ => rfl⟩
  | cons btr rest ih =>
      obtain ⟨part, done, works⟩ := fRead_ahead reading btr
      rw [readAll]
      dsimp only
      split
      case isTrue ok =>
        obtain ⟨taken, reading', left, -⟩ := done ok
        obtain ⟨part', done', works'⟩ := ih reading'
        rw [left] at part' done'
        have all := (List.prefix_append_right_inj ((ahead vol fil chain).take btr)).mpr part'
        rw [List.take_append_drop, ← taken] at all
        refine ⟨all, fun ok' => ?_, fun healthy => works' (works healthy).2⟩
        rw [done' ok', taken, List.sum_cons, List.take_add]
      case isFalse failed =>
        exact ⟨part, fun ok => absurd ok failed, fun healthy => (works healthy).1⟩

end Read

/-- Two clusters that are not in order; the first is only in the window. -/
def fragmented : Volume where
  fs :=
    { fsType := .fat16, csize := 1, nFats := 1, id := 1, nFatent := 5, fsize := 1, nRootdir := 16
      fatbase := 1, dirbase := 2, database := 3
      info := { lastClust := 0, freeClust := 0, fsiFlag := false }
      cdir := 0, wflag := true, winsect := 5, win := fun _ => 0x11 }
  disk :=
    { sectors := fun sector => if sector = 1 then sectorWith [(8, 3)] else fun _ => 0xBB
      faults := fun _ => none }

def fragmentedFil : Fil where
  fs := true
  id := 1
  faRead := true
  faError := false
  fptr := 0
  fsize := 600
  sclust := 4
  clust := 0
  dsect := 0

theorem fragmented_reading : Reading fragmented fragmentedFil [4, 3] where
  layout :=
    { mounted := by decide
      csize := ⟨0, by decide, rfl⟩
      nFats := by decide
      fatbase := by decide
      entries := by decide
      fat := by decide
      database := by decide
      root := fun _ => by decide
      fits := by decide }
  coherent :=
    { window := fun _ => rfl
      dirty := fun _ => by decide
      range := by decide }
  stored :=
    { clusters := by decide
      linked := List.isChain_pair.mpr (by decide +kernel)
      first := fun _ => rfl
      enough := by decide
      small := by decide }
  place :=
    { within := by decide
      clust := nofun
      dsect := fun middle => absurd rfl middle }
  opened := ⟨rfl, rfl, rfl, rfl⟩

theorem readAll_reads_fragmented :
    (readAll [100, 500, 7] fragmentedFil fragmented).bytes =
      List.replicate 512 0x11 ++ List.replicate 88 0xBB := by
  obtain ⟨-, done, works⟩ := readAll_reads fragmented_reading [100, 500, 7]
  exact (done (works fun _ => rfl)).trans (by decide +kernel)

/-! ### The command -/

/-- Read a chunk of file, and type the data, until an error or the end of the file. -/
def typeLoop : Nat → Fil → Volume → ReadResult
  | 0, fil, vol => { res := .ok, bytes := [], fil := fil, vol := vol }
  | reads + 1, fil, vol =>
      let chunk := fRead fil vol 65536
      if chunk.res ≠ .ok ∨ chunk.bytes.length = 0 then { chunk with bytes := [] }
      else
        let rest := typeLoop reads chunk.fil chunk.vol
        { rest with bytes := chunk.bytes ++ rest.bytes }

structure CatRun where
  opened : FResult
  typed : List (BitVec 8)
  read : FResult

/-- What `cmd_cat` does with a path: the loop goes on after a failed `f_open`. -/
def catFile (reads : Nat) (fil : Fil) (dj : Dir) (vol : Volume) (fsid : Nat) (path : List TChar) :
    CatRun :=
  match fOpen fil dj vol fsid path with
  | (opened, fil, vol) =>
      let loop := typeLoop reads fil vol
      { opened := opened, typed := loop.bytes, read := loop.res }

def tolower (c : TChar) : TChar := if isUpper c then c + 0x20 else c

def strcasecmp (s1 s2 : List TChar) : Bool := s1.map tolower == s2.map tolower

def help : List TChar := [0x2D, 0x2D, 0x68, 0x65, 0x6C, 0x70]

/-- `cmd_cat` with the strings of `argv`; nothing is run where it prints its usage. -/
def cmdCat (reads : Nat) (fil : Fil) (dj : Dir) (vol : Volume) (fsid : Nat) :
    List (List TChar) → Option CatRun
  | [path] => if strcasecmp path help then none else some (catFile reads fil dj vol fsid path)
  | _ => none

section Cat

variable {vol : Volume} {fil : Fil} {chain : List Nat} {reads : Nat}

theorem typeLoop_types (reading : Reading vol fil chain)
    (enough : fil.fsize - fil.fptr + 65536 ≤ 65536 * reads) :
    (typeLoop reads fil vol).bytes <+: ahead vol fil chain ∧
      ((typeLoop reads fil vol).res = .ok → (typeLoop reads fil vol).bytes = ahead vol fil chain) ∧
      (vol.disk.Healthy → (typeLoop reads fil vol).res = .ok) := by
  induction reads generalizing vol fil with
  | zero => omega
  | succ reads ih =>
      obtain ⟨part, done, works⟩ := fRead_ahead reading 65536
      rw [typeLoop]
      dsimp only
      split
      case isTrue stops =>
        refine ⟨List.nil_prefix, fun ok => ?_, fun healthy => (works healthy).1⟩
        obtain ⟨taken, -⟩ := done ok
        have none := stops.resolve_left (not_not.mpr ok)
        rw [taken, List.length_take] at none
        refine (List.eq_nil_of_length_eq_zero ?_).symm
        omega
      case isFalse goes =>
        obtain ⟨ok, some⟩ := not_or.mp goes
        obtain ⟨taken, reading', left, -⟩ := done (not_not.mp ok)
        have length := congrArg List.length left
        rw [length_ahead, List.length_drop, length_ahead] at length
        have more : 0 < fil.fsize - fil.fptr := by
          refine Nat.pos_of_ne_zero fun none => some ?_
          rw [taken, List.length_take, length_ahead, none, Nat.min_zero]
        obtain ⟨part', done', works'⟩ := ih reading' (by omega)
        rw [left] at part' done'
        have all := (List.prefix_append_right_inj ((ahead vol fil chain).take 65536)).mpr part'
        rw [List.take_append_drop, ← taken] at all
        refine ⟨all, fun ok' => ?_, fun healthy => works' (works healthy).2⟩
        rw [done' ok', taken, List.take_append_drop]

theorem typeLoop_closed (vol : Volume) (closed : fil.fs = false) (some : 0 < reads) :
    (typeLoop reads fil vol).bytes = [] ∧ (typeLoop reads fil vol).res = .invalidObject := by
  obtain ⟨more, rfl⟩ := Nat.exists_eq_succ_of_ne_zero some.ne'
  have read : fRead fil vol 65536 =
      { res := .invalidObject, bytes := [], fil := fil, vol := vol } := by
    rw [fRead, validate, if_pos (.inl closed)]
  rw [typeLoop, read]
  exact ⟨rfl, rfl⟩

/-- `cat` types what is in the file that the path leads to, through whatever directories and
clusters, and up to a failure of the disk. -/
theorem cat_types_file {fsid : Nat} (ready : Ready vol) (accepted : (chkMounted vol fsid).1 = .ok)
    {path path' : List TChar} (asked : strcasecmp path help = false)
    (drive : stripDrive path = .ok path') {sector dir : Nat}
    (leads : Leads (chkMounted vol fsid).2 path' (.entry sector dir))
    (plain : isDirectory ((chkMounted vol fsid).2.view sector) dir = false)
    (stored : Stored (chkMounted vol fsid).2 (ldClust ((chkMounted vol fsid).2.view sector) dir)
      (entrySize ((chkMounted vol fsid).2.view sector) dir) chain)
    (enough : entrySize ((chkMounted vol fsid).2.view sector) dir + 65536 ≤ 65536 * reads)
    (dj : Dir) :
    let mounted := (chkMounted vol fsid).2
    let contents := slice mounted.fs.toGeometry mounted.view chain 0
      (entrySize (mounted.view sector) dir)
    ∃ run, cmdCat reads fil dj vol fsid [path] = some run ∧ run.typed <+: contents ∧
      (run.read = .ok → run.opened = .ok ∧ run.typed = contents) ∧
      (vol.disk.Healthy → run.read = .ok) := by
  intro mounted contents
  refine ⟨catFile reads fil dj vol fsid path, ?_, ?_⟩
  · rw [cmdCat, asked, if_neg Bool.false_ne_true]
  obtain ⟨layout, coherent, well⟩ := chkMounted_ready ready accepted
  have opens := fOpen_opens ready accepted drive leads fil dj
  rw [catFile]
  generalize fOpen fil dj vol fsid path = result at opens ⊢
  obtain ⟨opened, fil', after⟩ := result
  obtain ⟨moves, closed, opens⟩ := opens
  dsimp only at opens moves closed ⊢
  rw [plain, if_neg Bool.false_ne_true] at opens
  rcases opens with ⟨ok, valid, fptr, fsize, sclust⟩ | ⟨failed, faulty⟩
  case inr =>
    obtain ⟨none, invalid⟩ := typeLoop_closed after (closed (by rw [failed]; nofun))
      (show 0 < reads by omega)
    rw [none, invalid]
    exact ⟨List.nil_prefix, nofun, fun healthy => absurd (well healthy) faulty⟩
  case inl =>
    have stored' : Stored mounted fil'.sclust fil'.fsize chain := by
      rw [fsize, sclust]
      exact stored
    have reading : Reading after fil' chain :=
      { layout := moves.geometry ▸ layout
        coherent := moves.coherent
        stored := stored'.moves layout moves
        place :=
          { within := by omega
            clust := fun started => absurd fptr started.ne'
            dsect := fun middle => absurd (by rw [fptr]) middle }
        opened := valid }
    have same : ahead after fil' chain = contents := by
      rw [ahead, fptr, Nat.sub_zero, stored'.slice_moves layout moves (Nat.zero_add _).le, fsize]
    have size : fil'.fsize - fil'.fptr + 65536 ≤ 65536 * reads := by omega
    obtain ⟨part, done, works⟩ := typeLoop_types reading size
    rw [same] at part done
    exact ⟨part, fun all => ⟨ok, done all⟩, fun healthy => works (moves.healthy (well healthy))⟩

def unopened : Fil where
  fs := false
  id := 0
  faRead := false
  faError := false
  fptr := 0
  fsize := 0
  sclust := 0
  clust := 0
  dsect := 0

def unused : Dir where
  sclust := 0
  index := 0
  clust := 0
  sect := 0
  dir := none

/-- What the mounted diskette holds. -/
theorem diskette_holds :
    let vol := (chkMounted (unmounted diskette) 0).2
    (Directory vol 0 [] ∧ Directory vol 2 [2]) ∧
      lookup vol.fs.toGeometry vol.view [] (0x41 :: blanks 10) = some 0 ∧
      lookup vol.fs.toGeometry vol.view [2] (0x42 :: blanks 7 ++ 0x43 :: blanks 2) = some 0 ∧
      lookup vol.fs.toGeometry vol.view [2] (0x43 :: blanks 10) = none ∧
      Stored vol 4 600 [4, 3] := by
  intro vol
  have root : Directory vol 0 [] := .static (by decide +kernel)
  have inner : Directory vol 2 [2] :=
    .chained (by decide +kernel) (by decide +kernel) (List.isChain_singleton _) (by decide +kernel)
  have stored : Stored vol 4 600 [4, 3] :=
    { clusters := by decide +kernel
      linked := List.isChain_pair.mpr (by decide +kernel)
      first := fun _ => rfl
      enough := by decide +kernel
      small := by decide }
  exact ⟨⟨root, inner⟩, by decide +kernel, by decide +kernel, by decide +kernel, stored⟩

theorem cat_types_subdirectory :
    ∃ run, cmdCat 2 unopened unused (unmounted diskette) 0 [[0x61, 0x2F, 0x62, 0x2E, 0x63]] =
        some run ∧ run.opened = .ok ∧ run.read = .ok ∧
      run.typed = List.replicate 512 0xAA ++ List.replicate 88 0xBB := by
  obtain ⟨⟨root, inner⟩, above, below, -, stored⟩ := diskette_holds
  have first : createName [0x61, 0x2F, 0x62, 0x2E, 0x63] =
      .ok (⟨0x41 :: blanks 10, nsBody⟩, [0x62, 0x2E, 0x63]) := by decide +kernel
  have second : createName [0x62, 0x2E, 0x63] =
      .ok (⟨0x42 :: blanks 7 ++ 0x43 :: blanks 2, nsLast ||| nsExt ||| nsBody⟩, []) := by
    decide +kernel
  have leads : Leads (chkMounted (unmounted diskette) 0).2 [0x61, 0x2F, 0x62, 0x2E, 0x63]
      (.entry 3 0) :=
    .on (by decide +kernel)
      (.enter first (by decide) root above (by decide +kernel)
      (.found second (by decide) inner below))
  obtain ⟨run, shape, -, done, works⟩ := @cat_types_file (unmounted diskette) unopened [4, 3] 2 0
    diskette_ready (by decide +kernel) [0x61, 0x2F, 0x62, 0x2E, 0x63] _ (by decide) rfl 3 0
    leads (by decide +kernel) stored (by decide +kernel) unused
  have read := works fun _ => rfl
  obtain ⟨opened, typed⟩ := done read
  exact ⟨run, shape, opened, read, typed.trans (by decide +kernel)⟩

/-- The results of `f_open` where there is no file. -/
def Outcome.refusal : Outcome → FResult
  | .entry _ _ => .noFile
  | .root => .invalidName
  | .missing last => if last then .noFile else .noPath
  | .invalid => .invalidName

/-- Where the path leads to no file, `cat` types nothing and names the reason. -/
theorem cat_types_nothing {fsid : Nat} (ready : Ready vol)
    (accepted : (chkMounted vol fsid).1 = .ok)
    {path path' : List TChar} (asked : strcasecmp path help = false)
    (drive : stripDrive path = .ok path') {outcome : Outcome}
    (leads : Leads (chkMounted vol fsid).2 path' outcome)
    (directory : ∀ sector dir, outcome = .entry sector dir →
      isDirectory ((chkMounted vol fsid).2.view sector) dir = true)
    (often : 0 < reads) (dj : Dir) :
    ∃ run, cmdCat reads fil dj vol fsid [path] = some run ∧
      run.typed = [] ∧ run.read = .invalidObject ∧
      (run.opened = outcome.refusal ∨ run.opened = .diskErr ∧ ¬ vol.disk.Healthy) := by
  refine ⟨catFile reads fil dj vol fsid path, ?_, ?_⟩
  · rw [cmdCat, asked, if_neg Bool.false_ne_true]
  obtain ⟨-, -, well⟩ := chkMounted_ready ready accepted
  have opens := fOpen_opens ready accepted drive leads fil dj
  rw [catFile]
  generalize fOpen fil dj vol fsid path = result at opens ⊢
  obtain ⟨opened, fil', after⟩ := result
  obtain ⟨-, closed, opens⟩ := opens
  dsimp only at opens closed ⊢
  have refused : opened = outcome.refusal ∨ opened = .diskErr ∧ ¬ vol.disk.Healthy := by
    refine opens.imp (fun reached => ?_) (And.imp_right fun faulty healthy => faulty (well healthy))
    cases outcome with
    | entry sector dir =>
        dsimp only at reached
        rw [directory sector dir rfl, if_pos rfl] at reached
        exact reached
    | root | missing _ | invalid => exact reached
  have failed : opened ≠ .ok := by
    rintro rfl
    rcases refused with refused | ⟨refused, -⟩
    · revert refused
      cases outcome with
      | missing last => cases last <;> nofun
      | entry _ _ | root | invalid => nofun
    · cases refused
  obtain ⟨none, invalid⟩ := typeLoop_closed after (closed failed) often
  exact ⟨none, invalid, refused⟩

theorem cat_types_nothing_missing :
    ∃ run, cmdCat 1 unopened unused (unmounted diskette) 0 [[0x61, 0x2F, 0x63, 0x2F, 0x64]] =
        some run ∧ run.typed = [] ∧ run.read = .invalidObject ∧ run.opened = .noPath := by
  obtain ⟨⟨root, inner⟩, above, -, nowhere, -⟩ := diskette_holds
  have first : createName [0x61, 0x2F, 0x63, 0x2F, 0x64] =
      .ok (⟨0x41 :: blanks 10, nsBody⟩, [0x63, 0x2F, 0x64]) := by decide +kernel
  have second : createName [0x63, 0x2F, 0x64] = .ok (⟨0x43 :: blanks 10, nsBody⟩, [0x64]) := by
    decide +kernel
  have leads : Leads (chkMounted (unmounted diskette) 0).2 [0x61, 0x2F, 0x63, 0x2F, 0x64]
      (.missing false) :=
    .on (by decide +kernel)
      (.enter first (by decide) root above (by decide +kernel)
      (.missing second (by decide) inner nowhere))
  obtain ⟨run, shape, typed, read, opened⟩ := @cat_types_nothing (unmounted diskette) unopened 1 0
    diskette_ready (by decide +kernel) [0x61, 0x2F, 0x63, 0x2F, 0x64] _ (by decide) rfl _ leads
    nofun (by decide) unused
  exact ⟨run, shape, typed, read, opened.resolve_right fun failed => failed.2 fun _ => rfl⟩

end Cat

end Synesthesia.FatFs
