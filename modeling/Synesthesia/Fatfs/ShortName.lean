/-
`ff.c`: the names of files as paths spell them and as directories hold them.

`create_name` takes a segment of a path to the eleven bytes of a directory entry, in
capitals and filled up with blanks, and `get_fileinfo` prints such an entry.  The code page
is Shift-JIS, where a character may have two bytes and the second may look like a letter,
a dot or a separator.
-/

import Synesthesia.Fatfs.ReadFile

namespace Synesthesia.FatFs

abbrev TChar := BitVec 8

def isDbcs1 (c : TChar) : Bool := 0x81 ≤ c && c ≤ 0x9F || 0xE0 ≤ c && c ≤ 0xFC

def isDbcs2 (c : TChar) : Bool := 0x40 ≤ c && c ≤ 0x7E || 0x80 ≤ c && c ≤ 0xFC

def isUpper (c : TChar) : Bool := 0x41 ≤ c && c ≤ 0x5A

def isLower (c : TChar) : Bool := 0x61 ≤ c && c ≤ 0x7A

def isSeparator (c : TChar) : Bool := c == 0x2F || c == 0x5C

/-- Break on end of segment. -/
def endsSegment (c : TChar) : Bool := c ≤ 0x20 || isSeparator c

/-- Illegal chrs for SFN: double quote, star, plus, comma, colon, semicolon, less, equals,
greater, question mark, brackets, bar and delete. -/
def illegalChars : List TChar :=
  [0x22, 0x2A, 0x2B, 0x2C, 0x3A, 0x3B, 0x3C, 0x3D, 0x3E, 0x3F, 0x5B, 0x5D, 0x7C, 0x7F]

/-- A segment of a path: `fn` of the directory object. -/
structure Segment where
  sfn : List TChar
  /-- Name status. -/
  ns : BitVec 8
  deriving DecidableEq

def nsLast : BitVec 8 := 0x04
def nsBody : BitVec 8 := 0x08
def nsExt : BitVec 8 := 0x10
def nsDot : BitVec 8 := 0x20

def blanks (n : Nat) : List TChar := List.replicate n 0x20

/-- A dot entry: one or two dots.  The result is the name, the character behind it and
what follows. -/
def dotChars (sfn : List TChar) (si : Nat) : List TChar → List TChar × TChar × List TChar
  | [] => (sfn, 0, [])
  | c :: path =>
      if c ≠ 0x2E ∨ 3 ≤ si + 1 then (sfn, c, path)
      else dotChars (sfn.set si c) (si + 1) path

structure NameState where
  sfn : List TChar
  i : Nat
  ni : Nat
  /-- Whether there were capitals and small letters, in the body and in the extension. -/
  b : BitVec 8

def NameState.put (st : NameState) (c : TChar) : NameState :=
  { st with sfn := st.sfn.set st.i c, i := st.i + 1 }

def NameState.single (st : NameState) (c : TChar) : NameState :=
  if isUpper c then { st with b := st.b ||| 2 }.put c
  else if isLower c then { st with b := st.b ||| 1 }.put (c - 0x20)
  else st.put c

/-- Extended char: Eliminate NT flag. -/
def NameState.extended (st : NameState) (c : TChar) : NameState :=
  if 0x80 ≤ c then { st with b := st.b ||| 3 } else st

/-- The loop over the characters of a segment; a path ends with a zero. -/
def nameChars (st : NameState) : List TChar → Except FResult (NameState × TChar × List TChar)
  | [] => .ok (st, 0, [])
  | c :: path =>
      if endsSegment c then .ok (st, c, path)
      else if c = 0x2E ∨ st.ni ≤ st.i then
        if st.ni ≠ 8 ∨ c ≠ 0x2E then .error .invalidName
        else nameChars { st with i := 8, ni := 11, b := st.b <<< 2 } path
      else
        if isDbcs1 c then
          match path with
          | [] => .error .invalidName
          | d :: path =>
              if isDbcs2 d = false ∨ st.ni - 1 ≤ st.i then .error .invalidName
              else nameChars (((st.extended c).put c).put d) path
        else if c ∈ illegalChars then .error .invalidName
        else nameChars ((st.extended c).single c) path

/-- When first char collides with DDE, replace it with 0x05. -/
def avoidDde (sfn : List TChar) : List TChar :=
  if sfn.headD 0x20 = 0xE5 then sfn.set 0 0x05 else sfn

/-- The NT flags of the letters that were seen. -/
def ntFlags (b : BitVec 8) : BitVec 8 :=
  (if b &&& 0x03 = 0x01 then nsExt else 0) ||| (if b &&& 0x0C = 0x04 then nsBody else 0)

def createName (path : List TChar) : Except FResult (Segment × List TChar) :=
  match path.dropWhile isSeparator with
  | 0x2E :: path =>
      match dotChars (blanks 11) 0 (0x2E :: path) with
      | (sfn, c, path) =>
          if isSeparator c = false ∧ 0x20 < c then .error .invalidName
          else .ok ({ sfn := sfn, ns := if c ≤ 0x20 then nsLast ||| nsDot else nsDot }, path)
  | path =>
      match nameChars { sfn := blanks 11, i := 0, ni := 8, b := 0 } path with
      | .error res => .error res
      | .ok (st, c, path) =>
          if st.i = 0 then .error .invalidName
          else
            .ok
              ({ sfn := avoidDde st.sfn
                 ns :=
                  (if c ≤ 0x20 then nsLast else 0) |||
                    ntFlags (if st.ni = 8 then st.b <<< 2 else st.b) }, path)

def fileName (sfn : List TChar) : List TChar :=
  (((sfn.take 8).takeWhile (· ≠ 0x20)).map fun c => if c = 0x05 then 0xE5 else c) ++
    if sfn.getD 8 0x20 = 0x20 then []
    else 0x2E :: ((sfn.drop 8).take 3).takeWhile (· ≠ 0x20)

/-! ### Names in directory form -/

/-- A character of one byte that a directory may hold. -/
structure Plain (c : TChar) : Prop where
  inside : endsSegment c = false
  dot : c ≠ 0x2E
  single : isDbcs1 c = false
  legal : c ∉ illegalChars
  capital : isLower c = false

/-- Characters of one or two bytes, without small letters. -/
inductive Chars : List TChar → Prop
  | nil : Chars []
  | single {c : TChar} {rest : List TChar} (plain : Plain c) (more : Chars rest) : Chars (c :: rest)
  | double {c d : TChar} {rest : List TChar} (first : isDbcs1 c = true) (second : isDbcs2 d = true)
      (more : Chars rest) : Chars (c :: d :: rest)

def pad (n : Nat) (chars : List TChar) : List TChar := chars ++ blanks (n - chars.length)

/-- The eleven bytes of a name and an extension. -/
inductive ShortName : List TChar → Prop
  | dot : ShortName (pad 11 [0x2E])
  | dotDot : ShortName (pad 11 [0x2E, 0x2E])
  | name {body ext : List TChar} (bodyChars : Chars body) (extChars : Chars ext)
      (some : body ≠ []) (bodySize : body.length ≤ 8) (extSize : ext.length ≤ 3) :
      ShortName (avoidDde (pad 8 body ++ pad 3 ext))

theorem Chars.append {first second : List TChar} (chars : Chars first) (more : Chars second) :
    Chars (first ++ second) := by
  induction chars with
  | nil => exact more
  | single plain _ ih => exact .single plain ih
  | double first second _ ih => exact .double first second ih

theorem pad_length {n : Nat} {chars : List TChar} (fits : chars.length ≤ n) :
    (pad n chars).length = n := by
  rw [pad, blanks, List.length_append, List.length_replicate]
  omega

theorem set_pad {n : Nat} {before chars : List TChar} (room : chars.length < n) (c : TChar) :
    (before ++ pad n chars).set (before.length + chars.length) c =
      before ++ pad n (chars ++ [c]) := by
  have more : n - chars.length = n - (chars ++ [c]).length + 1 := by
    rw [List.length_append, List.length_singleton]
    omega
  rw [List.set_append_right _ _ (Nat.le_add_right _ _), Nat.add_sub_cancel_left, pad,
    List.set_append_right _ _ (Nat.le_refl _), Nat.sub_self, pad, blanks, more,
    List.replicate_succ, List.set_cons_zero, blanks, List.append_assoc, List.singleton_append]

/-! ### The loop -/

structure Body (body : List TChar) : Prop where
  form : Chars body
  some : body ≠ []
  size : body.length ≤ 8

/-- The state of the loop after the characters of the body, or of the extension behind it. -/
structure Written (before chars : List TChar) (st : NameState) : Prop where
  form : Chars chars
  sfn : st.sfn = before ++ pad (11 - before.length) chars
  i : st.i = before.length + chars.length
  within : st.i ≤ st.ni
  ni : st.ni = 8 ∧ before = [] ∨ st.ni = 11 ∧ ∃ body, Body body ∧ before = pad 8 body

section Loop

variable {before chars : List TChar} {st : NameState}

theorem Written.size (written : Written before chars st) : st.ni ≤ 11 := by
  rcases written.ni with ⟨ni, -⟩ | ⟨ni, -⟩
  · omega
  · omega

theorem Written.flags (written : Written before chars st) (b : BitVec 8) :
    Written before chars { st with b := b } :=
  ⟨written.form, written.sfn, written.i, written.within, written.ni⟩

theorem Written.extended (written : Written before chars st) (c : TChar) :
    Written before chars (st.extended c) ∧ (st.extended c).i = st.i ∧
      (st.extended c).ni = st.ni := by
  rw [NameState.extended]
  split
  · exact ⟨written.flags (st.b ||| 3), rfl, rfl⟩
  · exact ⟨written, rfl, rfl⟩

theorem Written.put (written : Written before chars st) (more : st.i < st.ni) {c : TChar}
    (plain : Plain c) : Written before (chars ++ [c]) (st.put c) where
  form := written.form.append (.single plain .nil)
  sfn := by
    have size := written.size
    have i := written.i
    rw [NameState.put, written.sfn, written.i, set_pad (by omega)]
  i := by
    rw [NameState.put, written.i, List.length_append, List.length_singleton, Nat.add_assoc]
  within := more
  ni := written.ni

theorem Written.putTwo (written : Written before chars st) (more : st.i + 1 < st.ni) {c d : TChar}
    (first : isDbcs1 c = true) (second : isDbcs2 d = true) :
    Written before (chars ++ [c, d]) ((st.put c).put d) where
  form := written.form.append (.double first second .nil)
  sfn := by
    have size := written.size
    have i := written.i
    have longer : (chars ++ [c]).length = chars.length + 1 := List.length_append
    have place : before.length + (chars ++ [c]).length = before.length + chars.length + 1 := by
      rw [longer, Nat.add_assoc]
    simp only [NameState.put, written.sfn, written.i]
    rw [set_pad (by omega), ← place, set_pad (by omega), List.append_assoc, List.singleton_append]
  i := by
    simp only [NameState.put, written.i, List.length_append, List.length_cons, List.length_nil]
    omega
  within := more
  ni := written.ni

theorem pad_split {body : List TChar} (size : body.length ≤ 8) :
    pad 11 body = pad 8 body ++ pad 3 [] := by
  have more : 11 - body.length = (8 - body.length) + 3 := by omega
  rw [pad, pad, pad, blanks, blanks, blanks, more, List.replicate_add, List.append_assoc]
  rfl

theorem Written.dot (written : Written before chars st) (ni : st.ni = 8) (some : st.i ≠ 0)
    (b : BitVec 8) : Written (pad 8 chars) [] { st with i := 8, ni := 11, b := b } := by
  rcases written.ni with ⟨-, rfl⟩ | ⟨ni', -⟩
  case inr => omega
  case inl =>
    have i := written.i
    have within := written.within
    rw [List.length_nil, Nat.zero_add] at i
    have size : chars.length ≤ 8 := by omega
    have full : (pad 8 chars).length = 8 := pad_length size
    refine ⟨.nil, ?_, ?_, show 8 ≤ 11 by decide, .inr ⟨rfl, chars, ⟨written.form, ?_, size⟩, rfl⟩⟩
    · rw [full]
      exact written.sfn.trans (pad_split size)
    · rw [full]
      rfl
    · rintro rfl
      exact some i

theorem Written.named (written : Written before chars st) :
    ∃ body ext, Chars body ∧ Chars ext ∧ body.length ≤ 8 ∧ ext.length ≤ 3 ∧
      st.sfn = pad 8 body ++ pad 3 ext ∧ (st.i ≠ 0 → body ≠ []) := by
  have i := written.i
  have within := written.within
  have sfn := written.sfn
  rcases written.ni with ⟨ni, rfl⟩ | ⟨ni, body, named, rfl⟩
  · rw [List.length_nil, Nat.zero_add] at i
    have size : chars.length ≤ 8 := by omega
    refine ⟨chars, [], written.form, .nil, size, by decide, sfn.trans (pad_split size), ?_⟩
    rintro some rfl
    exact some i
  · rw [pad_length named.size] at i sfn
    exact ⟨body, chars, named.form, written.form, named.size, by omega, sfn, fun _ => named.some⟩

/-- How the classes of characters lie to each other. -/
structure Classes (c : TChar) : Prop where
  upper : isUpper c = true → Plain c
  lower : isLower c = true → isUpper c = false ∧ isUpper (c - 0x20) = true
  first : isDbcs1 c = true →
    endsSegment c = false ∧ c ≠ 0x2E ∧ c ≠ 0x20 ∧ c ≠ 0x05 ∧ isSeparator c = false
  second : isDbcs2 c = true → c ≠ 0x20 ∧ c ≠ 0x05
  inside : endsSegment c = false → c ≠ 0x20 ∧ c ≠ 0x05

theorem classes (c : TChar) : Classes c := by
  have table : ∀ c : TChar,
      (isUpper c = true → endsSegment c = false ∧ c ≠ 0x2E ∧
        isDbcs1 c = false ∧ c ∉ illegalChars ∧ isLower c = false) ∧
      (isLower c = true → isUpper c = false ∧ isUpper (c - 0x20) = true) ∧
      (isDbcs1 c = true →
        endsSegment c = false ∧ c ≠ 0x2E ∧ c ≠ 0x20 ∧ c ≠ 0x05 ∧ isSeparator c = false) ∧
      (isDbcs2 c = true → c ≠ 0x20 ∧ c ≠ 0x05) ∧
      (endsSegment c = false → c ≠ 0x20 ∧ c ≠ 0x05) := by
    decide +kernel
  obtain ⟨upper, lower, first, second, inside⟩ := table c
  refine
    { upper := fun capital => ?_
      lower := lower
      first := first
      second := second
      inside := inside }
  obtain ⟨inside, dot, one, legal, small⟩ := upper capital
  exact ⟨inside, dot, one, legal, small⟩

theorem Written.single (written : Written before chars st) (more : st.i < st.ni) {c : TChar}
    (inside : endsSegment c = false) (dot : c ≠ 0x2E) (one : isDbcs1 c = false)
    (legal : c ∉ illegalChars) :
    Written before (chars ++ [if isLower c then c - 0x20 else c]) (st.single c) := by
  rw [NameState.single]
  cases lower : isLower c with
  | true =>
      obtain ⟨other, capital⟩ := (classes c).lower lower
      rw [other, if_neg Bool.false_ne_true, if_pos rfl, if_pos rfl]
      exact (written.flags (st.b ||| 1)).put more ((classes _).upper capital)
  | false =>
      rw [if_neg Bool.false_ne_true, if_neg Bool.false_ne_true]
      split
      case isTrue upper => exact (written.flags (st.b ||| 2)).put more ((classes c).upper upper)
      case isFalse other => exact written.put more ⟨inside, dot, one, legal, lower⟩

/-- The loop keeps to the directory form. -/
theorem nameChars_written {path rest : List TChar} {st' : NameState} {c : TChar}
    (written : Written before chars st) (fresh : st.i = 0 → path.head? ≠ some 0x2E)
    (accepted : nameChars st path = .ok (st', c, rest)) :
    ∃ before' chars', Written before' chars' st' := by
  fun_induction nameChars st path generalizing before chars with
  | case1 | case2 =>
      obtain ⟨rfl, -⟩ := Prod.mk.inj (Except.ok.inj accepted)
      exact ⟨before, chars, written⟩
  | case3 | case5 | case6 | case8 => cases accepted
  | case4 st c path _ _ body ih =>
      obtain ⟨ni, dot⟩ := not_or.mp body
      refine ih (written.dot (not_not.mp ni) (fun none => fresh none ?_) _) nofun accepted
      rw [List.head?_cons, not_not.mp dot]
  | case7 st c inside more first d path room ih =>
      obtain ⟨second, fits⟩ := not_or.mp room
      obtain ⟨written', i, ni⟩ := written.extended c
      refine ih (written'.putTwo ?_ first (Bool.not_eq_false _ ▸ second)) nofun accepted
      omega
  | case9 st c path inside more one legal ih =>
      obtain ⟨dot, room⟩ := not_or.mp more
      obtain ⟨written', i, ni⟩ := written.extended c
      have single := written'.single (by omega) (Bool.eq_false_iff.mpr inside) dot
        (Bool.eq_false_iff.mpr one) legal
      refine ih single (fun none => ?_) accepted
      have more' := single.i
      rw [none, List.length_append, List.length_singleton] at more'
      omega

theorem nameChars_single {c : TChar} {path : List TChar} (plain : Plain c) (room : st.i < st.ni) :
    nameChars st (c :: path) = nameChars ((st.extended c).single c) path := by
  rw [nameChars.eq_def]
  dsimp only
  rw [plain.inside, if_neg Bool.false_ne_true, if_neg (not_or.mpr ⟨plain.dot, by omega⟩),
    plain.single, if_neg Bool.false_ne_true, if_neg plain.legal]

theorem nameChars_double {c d : TChar} {path : List TChar} (first : isDbcs1 c = true)
    (second : isDbcs2 d = true) (room : st.i + 1 < st.ni) :
    nameChars st (c :: d :: path) = nameChars (((st.extended c).put c).put d) path := by
  obtain ⟨inside, dot, -⟩ := (classes _).first first
  have small : (st.extended c).i = st.i ∧ (st.extended c).ni = st.ni := by
    rw [NameState.extended]
    split <;> exact ⟨rfl, rfl⟩
  rw [nameChars.eq_def]
  dsimp only
  rw [inside, if_neg Bool.false_ne_true, if_neg (not_or.mpr ⟨dot, by omega⟩), first, if_pos rfl,
    second, if_neg (not_or.mpr ⟨Bool.true_eq_false.mp, by omega⟩)]

theorem nameChars_chars {more tail : List TChar} (form : Chars more)
    (written : Written before chars st) (fits : st.i + more.length ≤ st.ni) :
    ∃ st', nameChars st (more ++ tail) = nameChars st' tail ∧ Written before (chars ++ more) st' ∧
      st'.ni = st.ni := by
  induction form generalizing chars st with
  | nil => exact ⟨st, rfl, by rw [List.append_nil]; exact written, rfl⟩
  | @single c rest plain _ ih =>
      rw [List.length_cons] at fits
      obtain ⟨written', i, ni⟩ := written.extended c
      have single := written'.single (by omega) plain.inside plain.dot plain.single plain.legal
      rw [plain.capital, if_neg Bool.false_ne_true] at single
      have next : ((st.extended c).single c).i = st.i + 1 := by
        rw [single.i, written.i, List.length_append, List.length_singleton, Nat.add_assoc]
      have limit : ((st.extended c).single c).ni = st.ni := by
        rw [NameState.single, plain.capital, if_neg Bool.false_ne_true]
        split <;> exact ni
      obtain ⟨st', same, all, ni'⟩ := ih single (by omega)
      refine ⟨st', ?_, ?_, ni'.trans limit⟩
      · rw [List.cons_append, nameChars_single plain (by omega), same]
      · rw [List.append_assoc, List.singleton_append] at all
        exact all
  | @double c d rest first second _ ih =>
      rw [List.length_cons, List.length_cons] at fits
      obtain ⟨written', i, ni⟩ := written.extended c
      have two := written'.putTwo (by omega) first second
      obtain ⟨st', same, all, ni'⟩ := ih two (by simp only [NameState.put]; omega)
      refine ⟨st', ?_, ?_, ni'.trans ni⟩
      · rw [List.cons_append, List.cons_append, nameChars_double first second (by omega), same]
      · rw [List.append_assoc] at all
        exact all

end Loop

example : createName [0x2F, 0x61, 0x2E, 0x62, 0x2F, 0x63] =
    .ok (⟨[0x41, 0x20, 0x20, 0x20, 0x20, 0x20, 0x20, 0x20, 0x42, 0x20, 0x20], nsExt ||| nsBody⟩,
      [0x63]) := by
  decide

/-! ### Accepted names -/

theorem written_nil (b : BitVec 8) :
    Written [] [] { sfn := blanks 11, i := 0, ni := 8, b := b } where
  form := .nil
  sfn := rfl
  i := rfl
  within := Nat.zero_le 8
  ni := .inl ⟨rfl, rfl⟩

theorem dotChars_cases (path : List TChar) :
    ∃ c rest, dotChars (blanks 11) 0 (0x2E :: path) = (pad 11 [0x2E], c, rest) ∨
      dotChars (blanks 11) 0 (0x2E :: path) = (pad 11 [0x2E, 0x2E], c, rest) := by
  have first : dotChars (blanks 11) 0 (0x2E :: path) = dotChars (pad 11 [0x2E]) 1 path := rfl
  rw [first]
  match path with
  | [] => exact ⟨0, [], .inl rfl⟩
  | c :: path =>
      by_cases dot : c = 0x2E
      case neg =>
        rw [dotChars, if_pos (.inl dot)]
        exact ⟨c, path, .inl rfl⟩
      case pos =>
        have second : dotChars (pad 11 [0x2E]) 1 (c :: path) =
            dotChars (pad 11 [0x2E, 0x2E]) 2 path := by
          rw [dotChars, dot]
          rfl
        rw [second]
        match path with
        | [] => exact ⟨0, [], .inr rfl⟩
        | c :: path =>
            rw [dotChars, if_pos (.inr (Nat.le_refl 3))]
            exact ⟨c, path, .inr rfl⟩

/-- What `create_name` accepts is in directory form. -/
theorem createName_shortName {path rest : List TChar} {segment : Segment}
    (accepted : createName path = .ok (segment, rest)) : ShortName segment.sfn := by
  rw [createName] at accepted
  split at accepted
  case h_1 path dots =>
    obtain ⟨c, rest', one | two⟩ := dotChars_cases path
    · rw [one] at accepted
      dsimp only at accepted
      split at accepted
      case isTrue => cases accepted
      case isFalse =>
        obtain ⟨rfl, -⟩ := Prod.mk.inj (Except.ok.inj accepted)
        exact .dot
    · rw [two] at accepted
      dsimp only at accepted
      split at accepted
      case isTrue => cases accepted
      case isFalse =>
        obtain ⟨rfl, -⟩ := Prod.mk.inj (Except.ok.inj accepted)
        exact .dotDot
  case h_2 _ other =>
    split at accepted
    case h_1 => cases accepted
    case h_2 st c rest' loop =>
      split at accepted
      case isTrue => cases accepted
      case isFalse some =>
        obtain ⟨rfl, -⟩ := Prod.mk.inj (Except.ok.inj accepted)
        have fresh : (path.dropWhile isSeparator).head? ≠ .some 0x2E := by
          intro dot
          obtain ⟨tail, same⟩ := List.head?_eq_some_iff.mp dot
          exact other tail same
        obtain ⟨before, chars, written⟩ := nameChars_written (written_nil 0) (fun _ => fresh) loop
        obtain ⟨body, ext, bodyChars, extChars, bodySize, extSize, sfn, named⟩ := written.named
        dsimp only
        rw [sfn]
        exact .name bodyChars extChars (named some) bodySize extSize

/-! ### Printing and reading again -/

theorem Chars.proper {chars : List TChar} (form : Chars chars) :
    ∀ c ∈ chars, c ≠ 0x20 ∧ c ≠ 0x05 := by
  induction form with
  | nil => nofun
  | single one _ ih => exact List.forall_mem_cons.mpr ⟨(classes _).inside one.inside, ih⟩
  | double first second _ ih =>
      obtain ⟨-, -, blank, five, -⟩ := (classes _).first first
      exact List.forall_mem_cons.mpr ⟨⟨blank, five⟩, List.forall_mem_cons.mpr ⟨(classes _).second second, ih⟩⟩

theorem Chars.head {c : TChar} {rest : List TChar} (form : Chars (c :: rest)) :
    isSeparator c = false ∧ c ≠ 0x2E := by
  cases form with
  | single plain _ =>
      have inside := plain.inside
      rw [endsSegment, Bool.or_eq_false_iff] at inside
      exact ⟨inside.2, plain.dot⟩
  | double first _ _ =>
      obtain ⟨-, dot, -, -, separator⟩ := (classes _).first first
      exact ⟨separator, dot⟩

theorem takeWhile_pad {n : Nat} {chars : List TChar} (proper : ∀ c ∈ chars, c ≠ 0x20) :
    (pad n chars).takeWhile (· ≠ 0x20) = chars := by
  rw [pad, List.takeWhile_append_of_pos (by simpa using proper)]
  have none : (blanks (n - chars.length)).takeWhile (· ≠ 0x20) = [] := by
    cases n - chars.length with
    | zero => rfl
    | succ more => rfl
  rw [none, List.append_nil]

theorem avoidDde_cons (c : TChar) (rest : List TChar) :
    avoidDde (c :: rest) = (if c = 0xE5 then 0x05 else c) :: rest := by
  rw [avoidDde, List.headD_cons]
  split <;> rfl

/-- A name with the character that avoids the mark of a deleted entry, and back. -/
theorem avoidDde_pad {body : List TChar} (rest : List TChar) (some : body ≠ [])
    (proper : ∀ c ∈ body, c ≠ 0x20 ∧ c ≠ 0x05) :
    ∃ body', avoidDde (pad 8 body ++ rest) = pad 8 body' ++ rest ∧ body'.length = body.length ∧
      (∀ c ∈ body', c ≠ 0x20) ∧ body'.map (fun c => if c = 0x05 then 0xE5 else c) = body := by
  obtain ⟨c, more, rfl⟩ := List.exists_cons_of_ne_nil some
  obtain ⟨⟨blank, five⟩, others⟩ := List.forall_mem_cons.mp proper
  have kept : more.map (fun c => if c = 0x05 then 0xE5 else c) = more := by
    refine (List.map_congr_left fun c inside => if_neg (others c inside).2).trans (List.map_id _)
  have blanks' : ∀ c ∈ more, c ≠ 0x20 := fun c inside => (others c inside).1
  by_cases mark : c = 0xE5
  case pos =>
    refine ⟨0x05 :: more, ?_, rfl, List.forall_mem_cons.mpr ⟨by decide, blanks'⟩, ?_⟩
    · refine (avoidDde_cons c _).trans ?_
      rw [if_pos mark]
      rfl
    · rw [List.map_cons, if_pos rfl, kept, mark]
  case neg =>
    refine ⟨c :: more, ?_, rfl, List.forall_mem_cons.mpr ⟨blank, blanks'⟩, ?_⟩
    · refine (avoidDde_cons c _).trans ?_
      rw [if_neg mark]
      rfl
    · rw [List.map_cons, if_neg five, kept]

theorem fileName_name {body ext : List TChar} (bodyChars : Chars body) (extChars : Chars ext)
    (some : body ≠ []) (bodySize : body.length ≤ 8) (extSize : ext.length ≤ 3) :
    fileName (avoidDde (pad 8 body ++ pad 3 ext)) =
      body ++ if ext = [] then [] else 0x2E :: ext := by
  obtain ⟨body', same, size, proper, printed⟩ := avoidDde_pad (pad 3 ext) some bodyChars.proper
  have full : (pad 8 body').length = 8 := pad_length (by omega)
  have extProper : ∀ c ∈ ext, c ≠ 0x20 := fun c inside => (extChars.proper c inside).1
  rw [fileName, same, List.take_left' full, List.drop_left' full, takeWhile_pad proper, printed,
    List.take_of_length_le (pad_length extSize).le, takeWhile_pad extProper]
  congr 1
  rw [List.getD_eq_getElem?_getD, List.getElem?_append_right full.le, full, Nat.sub_self]
  cases ext with
  | nil => rfl
  | cons c more =>
      have first : ((pad 3 (c :: more))[0]?.getD 0x20) ≠ 0x20 := extProper c List.mem_cons_self
      rw [if_neg first, if_neg (List.cons_ne_nil c more)]

/-- A name in directory form, as it is printed, is read as itself. -/
theorem createName_name {body ext : List TChar} (bodyChars : Chars body) (extChars : Chars ext)
    (some : body ≠ []) (bodySize : body.length ≤ 8) (extSize : ext.length ≤ 3) :
    ∃ ns, createName (body ++ if ext = [] then [] else 0x2E :: ext) =
      .ok ({ sfn := avoidDde (pad 8 body ++ pad 3 ext), ns := nsLast ||| ns }, []) := by
  obtain ⟨c, more, rfl⟩ := List.exists_cons_of_ne_nil some
  obtain ⟨separator, dot⟩ := bodyChars.head
  generalize printed : (if ext = [] then [] else 0x2E :: ext) = tail
  rw [List.cons_append]
  have start : (c :: (more ++ tail)).dropWhile isSeparator = c :: (more ++ tail) :=
    List.dropWhile_cons_of_neg (Bool.eq_false_iff.mp separator)
  have loop : ∃ st, nameChars { sfn := blanks 11, i := 0, ni := 8, b := 0 } (c :: (more ++ tail)) =
      .ok (st, 0, []) ∧ st.sfn = pad 8 (c :: more) ++ pad 3 ext ∧ st.i ≠ 0 := by
    obtain ⟨st, same, written, ni⟩ :=
      nameChars_chars bodyChars (written_nil 0) (by dsimp only; omega)
    rw [List.cons_append] at same
    have i : st.i = (c :: more).length := written.i.trans (Nat.zero_add _)
    rw [same, ← printed]
    cases ext with
    | nil =>
        rw [if_pos rfl]
        exact ⟨st, rfl, written.sfn.trans (pad_split bodySize), by rw [i]; exact Nat.succ_ne_zero _⟩
    | cons e ext =>
        have dotted := written.dot ni (by rw [i]; exact Nat.succ_ne_zero _) (st.b <<< 2)
        obtain ⟨st', same', written', ni'⟩ := nameChars_chars extChars dotted (by dsimp only; omega)
        rw [List.append_nil] at same'
        have full : (pad 8 (c :: more)).length = 8 := pad_length bodySize
        have sfn := written'.sfn
        have i' := written'.i
        simp only [List.nil_append, full] at sfn i'
        refine ⟨st', ?_, sfn, by omega⟩
        rw [if_neg (List.cons_ne_nil e ext), nameChars.eq_def]
        dsimp only
        rw [if_neg (by decide), if_pos (.inl rfl), ni, if_neg (by decide), same']
        rfl
  obtain ⟨st, same, sfn, progress⟩ := loop
  refine ⟨ntFlags (if st.ni = 8 then st.b <<< 2 else st.b), ?_⟩
  rw [createName, start]
  split
  case h_1 other => exact absurd (List.cons.inj other).1 dot
  case h_2 =>
    rw [same]
    dsimp only
    rw [if_neg progress, sfn, if_pos (by decide)]

/-- Whatever `create_name` accepts, `get_fileinfo` prints as a path of one segment, and this
path gives the same name. -/
theorem createName_fileName {path rest : List TChar} {segment : Segment}
    (accepted : createName path = .ok (segment, rest)) :
    ShortName segment.sfn ∧
      ∃ ns, createName (fileName segment.sfn) =
        .ok ({ sfn := segment.sfn, ns := nsLast ||| ns }, []) := by
  have form := createName_shortName accepted
  refine ⟨form, ?_⟩
  generalize segment.sfn = sfn at form ⊢
  cases form with
  | dot => exact ⟨nsDot, by decide⟩
  | dotDot => exact ⟨nsDot, by decide⟩
  | name bodyChars extChars some bodySize extSize =>
      rw [fileName_name bodyChars extChars some bodySize extSize]
      exact createName_name bodyChars extChars some bodySize extSize

/-- The second byte of the first character looks like a separator. -/
theorem createName_fileName_kanji :
    ShortName ([0x95, 0x5C] ++ blanks 6 ++ [0x54, 0x58, 0x54]) ∧
      ∃ ns, createName [0x95, 0x5C, 0x2E, 0x54, 0x58, 0x54] =
        .ok ({ sfn := [0x95, 0x5C] ++ blanks 6 ++ [0x54, 0x58, 0x54], ns := nsLast ||| ns }, []) :=
  createName_fileName (show createName [0x95, 0x5C, 0x2E, 0x54, 0x78, 0x74, 0x2F, 0x61] =
    .ok ({ sfn := [0x95, 0x5C] ++ blanks 6 ++ [0x54, 0x58, 0x54], ns := 0 }, [0x61]) by
      decide +kernel)

end Synesthesia.FatFs
