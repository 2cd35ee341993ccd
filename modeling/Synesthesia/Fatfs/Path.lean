/-
`ff.c`: from a path to the entry of a file, and `f_open` for reading.
-/

import Synesthesia.Fatfs.Directory
import Synesthesia.Fatfs.Mount
import Synesthesia.Fatfs.ShortName

namespace Synesthesia.FatFs

def ldClust (win : Sector) (dir : Nat) : Nat :=
  (ldWord win (dir + 20) ++ ldWord win (dir + 26)).toNat

def entrySize (win : Sector) (dir : Nat) : Nat := (ldDword win (dir + 28)).toNat

def isDirectory (win : Sector) (dir : Nat) : Bool := entryAttr win dir &&& 0x10 != 0

def Segment.isLast (segment : Segment) : Bool := segment.ns &&& nsLast != 0

def Segment.isDot (segment : Segment) : Bool := segment.ns &&& nsDot != 0

/-- The loop of `follow_path`, with as many passes as there can be segments. -/
def followSegments : Nat → Dir → Volume → List TChar → FResult × Dir × Volume
  | 0, dj, vol, _ => (.intErr, dj, vol)
  | segments + 1, dj, vol, path =>
      match createName path with
      | .error res => (res, dj, vol)
      | .ok (segment, path) =>
          match dirFind dj vol segment.sfn with
          | (.ok, dj, vol) =>
              if segment.isLast then (.ok, dj, vol)
              else if isDirectory vol.fs.win (dj.dir.getD 0) then
                followSegments segments
                  { dj with sclust := ldClust vol.fs.win (dj.dir.getD 0) } vol path
              else (.noPath, dj, vol)
          | (.noFile, dj, vol) =>
              if segment.isDot then
                if segment.isLast then (.ok, { dj with sclust := 0, dir := none }, vol)
                else followSegments segments { dj with sclust := 0, dir := none } vol path
              else (if segment.isLast then .noFile else .noPath, dj, vol)
          | (res, dj, vol) => (res, dj, vol)

/-- Strip a heading separator: it starts from the root dir, and else from the current dir. -/
def startPath (vol : Volume) : List TChar → Nat × List TChar
  | [] => (vol.fs.cdir, [])
  | c :: path => if isSeparator c then (0, path) else (vol.fs.cdir, c :: path)

def followPath (dj : Dir) (vol : Volume) (path : List TChar) : FResult × Dir × Volume :=
  let (sclust, path) := startPath vol path
  if path.headD 0 < 0x20 then
    match dirSdi { dj with sclust := sclust } vol 0 with
    | (res, dj, vol) => (res, { dj with dir := none }, vol)
  else followSegments (path.length + 1) { dj with sclust := sclust } vol path

/-- The drive number in a path; there is only drive 0. -/
def stripDrive : List TChar → Except FResult (List TChar)
  | d :: 0x3A :: path =>
      if 0x30 ≤ d ∧ d ≤ 0x39 then if d = 0x30 then .ok path else .error .invalidDrive
      else .ok (d :: 0x3A :: path)
  | path => .ok path

def openEntry (fil : Fil) (dj : Dir) (vol : Volume) : FResult × Fil × Volume :=
  match dj.dir with
  | none => (.invalidName, fil, vol)
  | some dir =>
      if isDirectory vol.fs.win dir then (.noFile, fil, vol)
      else
        (.ok,
          { fs := true
            id := vol.fs.id
            faRead := true
            faError := false
            fptr := 0
            fsize := entrySize vol.fs.win dir
            sclust := ldClust vol.fs.win dir
            clust := fil.clust
            dsect := 0 }, vol)

/-- `f_open` for reading.  What is in the directory object before does not matter. -/
def fOpen (fil : Fil) (dj : Dir) (vol : Volume) (fsid : Nat) (path : List TChar) :
    FResult × Fil × Volume :=
  let fil := { fil with fs := false }
  match stripDrive path with
  | .error res => (res, fil, vol)
  | .ok path =>
      match chkMounted vol fsid with
      | (.ok, vol) =>
          match followPath dj vol path with
          | (.ok, dj, vol) => openEntry fil dj vol
          | (res, _, vol) => (res, fil, vol)
      | (res, vol) => (res, fil, vol)

/-! ### What a path means -/

/-- What a path leads to: an entry, as its sector and its place there; a root directory, which
has no entry; or nothing. -/
inductive Outcome where
  | entry (sector dir : Nat)
  | root
  /-- There is no such file, or no such directory on the way. -/
  | missing (last : Bool)
  | invalid

/-- The meaning of a path from a directory on. -/
inductive Resolves (vol : Volume) : Nat → List TChar → Outcome → Prop
  | invalid {sclust : Nat} {path : List TChar}
      (refused : createName path = .error .invalidName) : Resolves vol sclust path .invalid
  | found {sclust i : Nat} {path rest : List TChar} {segment : Segment} {chain : List Nat}
      (name : createName path = .ok (segment, rest)) (last : segment.isLast = true)
      (directory : Directory vol sclust chain)
      (here : lookup vol.fs.toGeometry vol.view chain segment.sfn = some i) :
      Resolves vol sclust path (.entry (dirSector vol.fs.toGeometry chain (i / 16)) (i % 16 * 32))
  | enter {sclust i : Nat} {path rest : List TChar} {segment : Segment} {chain : List Nat}
      {outcome : Outcome}
      (name : createName path = .ok (segment, rest)) (more : segment.isLast = false)
      (directory : Directory vol sclust chain)
      (here : lookup vol.fs.toGeometry vol.view chain segment.sfn = some i)
      (inner : entryIs vol.fs.toGeometry vol.view chain isDirectory i = true)
      (leads : Resolves vol
        (ldClust (vol.view (dirSector vol.fs.toGeometry chain (i / 16))) (i % 16 * 32))
        rest outcome) :
      Resolves vol sclust path outcome
  | file {sclust i : Nat} {path rest : List TChar} {segment : Segment} {chain : List Nat}
      (name : createName path = .ok (segment, rest)) (more : segment.isLast = false)
      (directory : Directory vol sclust chain)
      (here : lookup vol.fs.toGeometry vol.view chain segment.sfn = some i)
      (plain : entryIs vol.fs.toGeometry vol.view chain isDirectory i = false) :
      Resolves vol sclust path (.missing false)
  | missing {sclust : Nat} {path rest : List TChar} {segment : Segment} {chain : List Nat}
      (name : createName path = .ok (segment, rest)) (proper : segment.isDot = false)
      (directory : Directory vol sclust chain)
      (nowhere : lookup vol.fs.toGeometry vol.view chain segment.sfn = none) :
      Resolves vol sclust path (.missing segment.isLast)
  | above {sclust : Nat} {path rest : List TChar} {segment : Segment} {chain : List Nat}
      {outcome : Outcome}
      (name : createName path = .ok (segment, rest)) (dot : segment.isDot = true)
      (more : segment.isLast = false) (directory : Directory vol sclust chain)
      (nowhere : lookup vol.fs.toGeometry vol.view chain segment.sfn = none)
      (leads : Resolves vol 0 rest outcome) : Resolves vol sclust path outcome
  | top {sclust : Nat} {path rest : List TChar} {segment : Segment} {chain : List Nat}
      (name : createName path = .ok (segment, rest)) (dot : segment.isDot = true)
      (last : segment.isLast = true) (directory : Directory vol sclust chain)
      (nowhere : lookup vol.fs.toGeometry vol.view chain segment.sfn = none) :
      Resolves vol sclust path .root

/-- The meaning of a whole path. -/
inductive Leads (vol : Volume) (path : List TChar) : Outcome → Prop
  | start {chain : List Nat} (blank : (startPath vol path).2.headD 0 < 0x20)
      (directory : Directory vol (startPath vol path).1 chain) : Leads vol path .root
  | on {outcome : Outcome} (proper : ¬ (startPath vol path).2.headD 0 < 0x20)
      (resolves : Resolves vol (startPath vol path).1 (startPath vol path).2 outcome) :
      Leads vol path outcome

/-! ### Following a path -/

/-- A path was followed: to what it means, or to a failure of the disk. -/
structure Follows (vol : Volume) (outcome : Outcome) (result : FResult × Dir × Volume) : Prop where
  moves : Moves vol result.2.2
  reaches :
    (match outcome with
      | .entry sector dir =>
          result.1 = .ok ∧ result.2.1.dir = some dir ∧ result.2.2.fs.win = vol.view sector
      | .root => result.1 = .ok ∧ result.2.1.dir = none
      | .missing last => result.1 = if last then .noFile else .noPath
      | .invalid => result.1 = .invalidName) ∨
      result.1 = .diskErr ∧ ¬ vol.disk.Healthy

theorem nameChars_shorter {st st' : NameState} {c : TChar} {path rest : List TChar}
    (accepted : nameChars st path = .ok (st', c, rest)) : rest.length ≤ path.length - 1 := by
  fun_induction nameChars st path with
  | case1 =>
      cases accepted
      exact Nat.le_refl _
  | case2 =>
      cases accepted
      exact Nat.le_refl _
  | case3 | case5 | case6 | case8 => cases accepted
  | case4 st d path _ _ _ ih | case9 st d path _ _ _ _ ih =>
      have rest := ih accepted
      rw [List.length_cons]
      omega
  | case7 st d _ _ _ e path _ ih =>
      have rest := ih accepted
      rw [List.length_cons, List.length_cons]
      omega

theorem dotChars_shorter {sfn sfn' : List TChar} {si : Nat} {c : TChar} {path rest : List TChar}
    (dots : dotChars sfn si path = (sfn', c, rest)) : rest.length ≤ path.length - 1 := by
  fun_induction dotChars sfn si path with
  | case1 =>
      cases dots
      exact Nat.le_refl _
  | case2 =>
      cases dots
      exact Nat.le_refl _
  | case3 sfn si d path _ ih =>
      have rest := ih dots
      rw [List.length_cons]
      omega

theorem createName_shorter {path rest : List TChar} {segment : Segment}
    (accepted : createName path = .ok (segment, rest)) : rest.length < path.length := by
  have stripped : (path.dropWhile isSeparator).length ≤ path.length :=
    (List.dropWhile_suffix isSeparator).length_le
  rw [createName] at accepted
  split at accepted
  case h_1 path' dots =>
    rw [dots, List.length_cons] at stripped
    generalize loop : dotChars (blanks 11) 0 (0x2E :: path') = result at accepted
    obtain ⟨sfn, c, rest'⟩ := result
    have shorter := dotChars_shorter loop
    rw [List.length_cons] at shorter
    dsimp only at accepted
    split at accepted
    case isTrue => cases accepted
    case isFalse =>
      obtain ⟨-, rfl⟩ := Prod.mk.inj (Except.ok.inj accepted)
      omega
  case h_2 =>
    split at accepted
    case h_1 => cases accepted
    case h_2 st c rest' loop =>
      have shorter := nameChars_shorter loop
      split at accepted
      case isTrue => cases accepted
      case isFalse some =>
        obtain ⟨-, rfl⟩ := Prod.mk.inj (Except.ok.inj accepted)
        have left : path.dropWhile isSeparator ≠ [] := by
          intro none
          rw [none, nameChars] at loop
          cases loop
          exact some rfl
        have positive := List.length_pos_iff.mpr left
        omega

section Follow

variable {vol : Volume} {sclust : Nat} {chain : List Nat}

theorem dirFind_after (layout : Layout vol.fs.toGeometry) {moved : Volume} (moves : Moves vol moved)
    (directory : Directory vol sclust chain) {dj : Dir} (start : dj.sclust = sclust)
    (name : List TChar) :
    Finds vol sclust chain (lookup vol.fs.toGeometry vol.view chain name)
      (dirFind dj moved name) := by
  have finds := dirFind_finds (moves.geometry ▸ layout) moves.coherent
    (directory.moves layout moves)
    start name
  rw [lookup, directory.lookupFrom_moves layout moves] at finds
  exact finds.after layout directory moves

theorem Follows.failed {outcome : Outcome} {dj : Dir} {after : Volume} (moves : Moves vol after)
    (faulty : ¬ vol.disk.Healthy) : Follows vol outcome (.diskErr, dj, after) :=
  ⟨moves, .inr ⟨rfl, faulty⟩⟩

theorem dirFind_some (layout : Layout vol.fs.toGeometry) {moved : Volume} (moves : Moves vol moved)
    (directory : Directory vol sclust chain) {dj : Dir} (start : dj.sclust = sclust)
    {name : List TChar} {i : Nat} (here : lookup vol.fs.toGeometry vol.view chain name = some i) :
    ∃ dj' after, Moves vol after ∧
      (dirFind dj moved name = (.ok, dj', after) ∧ dj'.dir = some (i % 16 * 32) ∧
          after.fs.win = vol.view (dirSector vol.fs.toGeometry chain (i / 16)) ∨
        dirFind dj moved name = (.diskErr, dj', after) ∧ ¬ vol.disk.Healthy) := by
  have finds := dirFind_after layout moves directory start name
  generalize dirFind dj moved name = result at finds
  obtain ⟨res, dj', after⟩ := result
  obtain ⟨moves', -, outcome⟩ := finds
  refine ⟨dj', after, moves', ?_⟩
  rcases outcome with ⟨k, found, -, ok, place, win⟩ | ⟨missing, -⟩ | ⟨failed, faulty⟩
  · obtain rfl := Option.some.inj (here.symm.trans found)
    obtain rfl : res = .ok := ok
    exact .inl ⟨rfl, place.dir, win⟩
  · cases here.symm.trans missing
  · obtain rfl : res = .diskErr := failed
    exact .inr ⟨rfl, faulty⟩

theorem dirFind_none (layout : Layout vol.fs.toGeometry) {moved : Volume} (moves : Moves vol moved)
    (directory : Directory vol sclust chain) {dj : Dir} (start : dj.sclust = sclust)
    {name : List TChar} (nowhere : lookup vol.fs.toGeometry vol.view chain name = none) :
    ∃ dj' after, Moves vol after ∧
      (dirFind dj moved name = (.noFile, dj', after) ∨
        dirFind dj moved name = (.diskErr, dj', after) ∧ ¬ vol.disk.Healthy) := by
  have finds := dirFind_after layout moves directory start name
  generalize dirFind dj moved name = result at finds
  obtain ⟨res, dj', after⟩ := result
  obtain ⟨moves', -, outcome⟩ := finds
  refine ⟨dj', after, moves', ?_⟩
  rcases outcome with ⟨k, found, -⟩ | ⟨-, missing⟩ | ⟨failed, faulty⟩
  · cases nowhere.symm.trans found
  · obtain rfl : res = .noFile := missing
    exact .inl rfl
  · obtain rfl : res = .diskErr := failed
    exact .inr ⟨rfl, faulty⟩

/-- The loop follows the meaning of the path, segment by segment. -/
theorem followSegments_follows (layout : Layout vol.fs.toGeometry) {path : List TChar}
    {outcome : Outcome} (resolves : Resolves vol sclust path outcome) {moved : Volume}
    (moves : Moves vol moved) {dj : Dir} (start : dj.sclust = sclust) {segments : Nat}
    (enough : path.length < segments) :
    Follows vol outcome (followSegments segments dj moved path) := by
  induction segments generalizing sclust path moved dj with
  | zero => exact absurd enough (Nat.not_lt_zero _)
  | succ segments ih =>
      rw [followSegments]
      cases resolves with
      | invalid refused =>
          rw [refused]
          exact ⟨moves, .inl rfl⟩
      | found name last directory here =>
          rw [name]
          dsimp only
          obtain ⟨dj', after, moves', ⟨find, dir, win⟩ | ⟨find, faulty⟩⟩ :=
            dirFind_some layout moves directory start here
          · rw [find]
            dsimp only
            rw [last, if_pos rfl]
            exact ⟨moves', .inl ⟨rfl, dir, win⟩⟩
          · rw [find]
            exact .failed moves' faulty
      | enter name more directory here inner leads =>
          have shorter := createName_shorter name
          rw [name]
          dsimp only
          obtain ⟨dj', after, moves', ⟨find, dir, win⟩ | ⟨find, faulty⟩⟩ :=
            dirFind_some layout moves directory start here
          · rw [entryIs, ← win] at inner
            rw [find]
            dsimp only
            rw [more, if_neg Bool.false_ne_true, dir, Option.getD_some, inner, if_pos rfl]
            refine ih leads moves' ?_ (by omega)
            rw [win]
          · rw [find]
            exact .failed moves' faulty
      | file name more directory here plain =>
          rw [name]
          dsimp only
          obtain ⟨dj', after, moves', ⟨find, dir, win⟩ | ⟨find, faulty⟩⟩ :=
            dirFind_some layout moves directory start here
          · rw [entryIs, ← win] at plain
            rw [find]
            dsimp only
            rw [more, if_neg Bool.false_ne_true, dir, Option.getD_some, plain,
              if_neg Bool.false_ne_true]
            exact ⟨moves', .inl rfl⟩
          · rw [find]
            exact .failed moves' faulty
      | missing name proper directory nowhere =>
          rw [name]
          dsimp only
          obtain ⟨dj', after, moves', find | ⟨find, faulty⟩⟩ :=
            dirFind_none layout moves directory start nowhere
          · rw [find]
            dsimp only
            rw [proper, if_neg Bool.false_ne_true]
            exact ⟨moves', .inl rfl⟩
          · rw [find]
            exact .failed moves' faulty
      | above name dot more directory nowhere leads =>
          have shorter := createName_shorter name
          rw [name]
          dsimp only
          obtain ⟨dj', after, moves', find | ⟨find, faulty⟩⟩ :=
            dirFind_none layout moves directory start nowhere
          · rw [find]
            dsimp only
            rw [dot, if_pos rfl, more, if_neg Bool.false_ne_true]
            exact ih leads moves' rfl (by omega)
          · rw [find]
            exact .failed moves' faulty
      | top name dot last directory nowhere =>
          rw [name]
          dsimp only
          obtain ⟨dj', after, moves', find | ⟨find, faulty⟩⟩ :=
            dirFind_none layout moves directory start nowhere
          · rw [find]
            dsimp only
            rw [dot, if_pos rfl, last, if_pos rfl]
            exact ⟨moves', .inl ⟨rfl, rfl⟩⟩
          · rw [find]
            exact .failed moves' faulty

theorem followPath_follows (layout : Layout vol.fs.toGeometry) (coherent : Coherent vol)
    {path : List TChar} {outcome : Outcome} (leads : Leads vol path outcome) (dj : Dir) :
    Follows vol outcome (followPath dj vol path) := by
  rw [followPath]
  dsimp only
  cases leads with
  | start blank directory =>
      obtain ⟨dj', same, -, -⟩ :=
        @dirSdi_at vol _ _ layout directory { dj with sclust := (startPath vol path).1 } rfl
      rw [if_pos blank, same]
      exact ⟨.refl coherent, .inl ⟨rfl, rfl⟩⟩
  | on proper resolves =>
      rw [if_neg proper]
      exact followSegments_follows layout resolves (.refl coherent) rfl (Nat.lt_succ_self _)

/-- What `f_open` gives for the meaning of a path. -/
structure Opens (vol : Volume) (outcome : Outcome) (result : FResult × Fil × Volume) : Prop where
  moves : Moves vol result.2.2
  closed : result.1 ≠ .ok → result.2.1.fs = false
  opens :
    (match outcome with
      | .entry sector dir =>
          if isDirectory (vol.view sector) dir then result.1 = .noFile
          else
            result.1 = .ok ∧ Opened result.2.2 result.2.1 ∧ result.2.1.fptr = 0 ∧
              result.2.1.fsize = entrySize (vol.view sector) dir ∧
              result.2.1.sclust = ldClust (vol.view sector) dir
      | .root => result.1 = .invalidName
      | .missing last => result.1 = if last then .noFile else .noPath
      | .invalid => result.1 = .invalidName) ∨
      result.1 = .diskErr ∧ ¬ vol.disk.Healthy

theorem openEntry_opens {outcome : Outcome} {dj : Dir} {after : Volume} {fil : Fil}
    (closed : fil.fs = false) (follows : Follows vol outcome (.ok, dj, after)) :
    Opens vol outcome (openEntry fil dj after) := by
  obtain ⟨moves, reaches⟩ := follows
  rcases reaches with reaches | ⟨failed, -⟩
  case inr => cases failed
  case inl =>
    rw [openEntry]
    cases outcome with
    | entry sector dir =>
        obtain ⟨-, here, win⟩ := reaches
        dsimp only at here win moves
        rw [here]
        dsimp only
        rw [win]
        cases kind : isDirectory (vol.view sector) dir with
        | true =>
            rw [if_pos rfl]
            refine ⟨moves, fun _ => closed, .inl ?_⟩
            dsimp only
            rw [kind, if_pos rfl]
        | false =>
            rw [if_neg Bool.false_ne_true]
            refine ⟨moves, fun refused => absurd rfl refused, .inl ?_⟩
            dsimp only
            rw [kind, if_neg Bool.false_ne_true]
            exact ⟨rfl, ⟨rfl, rfl, rfl, rfl⟩, rfl, rfl, rfl⟩
    | root =>
        obtain ⟨-, here⟩ := reaches
        dsimp only at here moves
        rw [here]
        exact ⟨moves, fun _ => closed, .inl rfl⟩
    | missing last =>
        cases last with
        | true => cases reaches
        | false => cases reaches
    | invalid => cases reaches

/-- `f_open` opens the file that the path means, and refuses what is no file. -/
theorem fOpen_opens {fsid : Nat} (ready : Ready vol) (accepted : (chkMounted vol fsid).1 = .ok)
    {path path' : List TChar} (drive : stripDrive path = .ok path') {outcome : Outcome}
    (leads : Leads (chkMounted vol fsid).2 path' outcome) (fil : Fil) (dj : Dir) :
    Opens (chkMounted vol fsid).2 outcome (fOpen fil dj vol fsid path) := by
  obtain ⟨layout, coherent, -⟩ := chkMounted_ready ready accepted
  rw [fOpen, drive]
  dsimp only
  generalize chkMounted vol fsid = mounted at accepted leads layout coherent ⊢
  obtain ⟨res, vol'⟩ := mounted
  obtain rfl : res = .ok := accepted
  dsimp only at leads layout coherent ⊢
  have follows := followPath_follows layout coherent leads dj
  generalize followPath dj vol' path' = result at follows ⊢
  obtain ⟨res, dj', after⟩ := result
  by_cases found : res = .ok
  case pos =>
    subst found
    exact openEntry_opens rfl follows
  case neg =>
    obtain ⟨moves, reaches⟩ := follows
    have same : (match (res, dj', after) with
        | (.ok, dj, vol) => openEntry { fil with fs := false } dj vol
        | (res, _, vol) => (res, { fil with fs := false }, vol)) =
        (res, { fil with fs := false }, after) := by
      cases res with
      | ok => exact absurd rfl found
      | _ => rfl
    rw [same]
    refine ⟨moves, fun _ => rfl, reaches.imp_left fun reached => ?_⟩
    cases outcome with
    | entry sector dir => exact absurd reached.1 found
    | root => exact absurd reached.1 found
    | missing last => exact reached
    | invalid => exact reached

end Follow

end Synesthesia.FatFs
