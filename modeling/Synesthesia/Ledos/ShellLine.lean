/-
`shell.c`: reading a line and splitting it into the arguments of a command.

Strings are lists of characters without the NUL that ends them.  A pointer that
may be `NULL` is an option, and the pointer that `_strtok` saves is the rest of
the line it points to.
-/

namespace Synesthesia.Shell

def shellMaxLineLength : Nat := 64
def shellMaxArguments : Nat := 4

/-! ### Reading a line -/

/-- `shellGetLine` with the pointer at place `p` of the buffer.  A key is a byte, or nothing for
the negative value that `alt_getchar` returns when the channel was reset.  Only return ends the
text with a NUL: after `^D` or a reset the buffer still holds what stood behind the pointer. -/
def shellGetLine (size : Nat) :
    List Char → Nat → List (Option (BitVec 8)) → Option (Bool × List Char)
  | _, _, [] => none
  | line, _, none :: _ => some (true, line)
  | line, p, some c :: keys =>
      if c = 4 then some (true, line)
      else if c = 8 then shellGetLine size line (p - 1) keys
      else if c = 13 then some (false, line.set p (Char.ofNat 0))
      else if c < 0x20 then shellGetLine size line p keys
      else if p < size - 1 then
        shellGetLine size (line.set p (Char.ofNat c.toNat)) (p + 1) keys
      else shellGetLine size line p keys

def text (line : List Char) : List Char := line.takeWhile fun c => c != Char.ofNat 0

/-! ### Splitting a line -/

/-- The delimiters `" \009"`: the escape is a NUL, which ends the string behind the blank. -/
def isDelim (c : Char) : Bool := c == ' '

def strtok : Option (List Char) → Option (List Char) × Option (List Char)
  | none => (none, none)
  | some saved =>
      let token := saved.dropWhile isDelim
      let word := token.takeWhile fun c => !isDelim c
      let rest := token.dropWhile fun c => !isDelim c
      (if word.isEmpty then none else some word, if rest.isEmpty then none else some rest.tail)

/-- The loop that fills `args`, with `room` places left; true when there are too many. -/
def collectArgs : Nat → Option (List Char) → List (List Char) × Bool
  | 0, tokp => ([], (strtok tokp).1.isSome)
  | room + 1, tokp =>
      match (strtok tokp).1 with
      | none => ([], false)
      | some lp =>
          let rest := collectArgs room (strtok tokp).2
          (lp :: rest.1, rest.2)

/-- `cmd` and `args` for a line; `cmd` is `NULL` when there is nothing to execute. -/
def splitLine (line : List Char) : Option (List Char) × List (List Char) :=
  let first := strtok (some line)
  let args := collectArgs shellMaxArguments first.2
  (if args.2 then none else first.1, args.1)

/-! ### The words of a line -/

/-- What a line consists of: its longest parts without a delimiter. -/
def words (line : List Char) : List (List Char) :=
  (line.splitOnP isDelim).filter fun word => !word.isEmpty

theorem words_delim {c : Char} (delim : isDelim c = true) (line : List Char) :
    words (c :: line) = words line := by
  unfold words
  rw [List.splitOnP_cons_eq_if_modifyHead, if_pos delim]
  rfl

theorem words_dropWhile (line : List Char) : words (line.dropWhile isDelim) = words line := by
  induction line with
  | nil => rfl
  | cons c line ih =>
      cases delim : isDelim c with
      | true => rw [List.dropWhile_cons_of_pos delim, ih, words_delim delim]
      | false => rw [List.dropWhile_cons_of_neg (by rw [delim]; exact Bool.false_ne_true)]

theorem words_word {word : List Char} (plain : ∀ c ∈ word, isDelim c = false) :
    words word = if word.isEmpty then [] else [word] := by
  unfold words
  rw [List.splitOnP_eq_singleton plain]
  cases word with
  | nil => rfl
  | cons c word => rfl

theorem words_append {word : List Char} (plain : ∀ c ∈ word, isDelim c = false) {c : Char}
    (delim : isDelim c = true) (line : List Char) :
    words (word ++ c :: line) = (if word.isEmpty then [] else [word]) ++ words line := by
  unfold words
  rw [List.splitOnP_append_cons_of_forall_mem plain c delim]
  cases word with
  | nil => rfl
  | cons first word => rfl

theorem takeWhile_plain (line : List Char) :
    ∀ c ∈ line.takeWhile fun c => !isDelim c, isDelim c = false := by
  intro c member
  have passes : (!isDelim c) = true := List.all_eq_true.mp List.all_takeWhile c member
  rwa [Bool.not_eq_true'] at passes

theorem strtok_parts (line : List Char) :
    ∃ word rest : List Char, (∀ c ∈ word, isDelim c = false) ∧
      (∀ c ∈ rest.head?, isDelim c = true) ∧ (word = [] → rest = []) ∧
      words line = words (word ++ rest) ∧
      strtok (some line) =
        (if word.isEmpty then none else some word,
          if rest.isEmpty then none else some rest.tail) := by
  have parts : (line.dropWhile isDelim).takeWhile (fun c => !isDelim c) ++
      (line.dropWhile isDelim).dropWhile (fun c => !isDelim c) = line.dropWhile isDelim :=
    List.takeWhile_append_dropWhile
  refine ⟨(line.dropWhile isDelim).takeWhile fun c => !isDelim c,
    (line.dropWhile isDelim).dropWhile fun c => !isDelim c, takeWhile_plain _, ?_, ?_, ?_, rfl⟩
  · intro c member
    have ends := List.head?_dropWhile_not (fun c => !isDelim c) (line.dropWhile isDelim)
    rw [Option.mem_def.mp member] at ends
    simpa using ends
  · intro none
    cases left : line.dropWhile isDelim with
    | nil => rfl
    | cons c token =>
        have starts := List.head?_dropWhile_not isDelim line
        rw [left] at none starts
        have plain : isDelim c = false := starts
        rw [List.takeWhile_cons, plain] at none
        cases none
  · rw [parts, words_dropWhile]

theorem words_strtok (line : List Char) :
    words line = (strtok (some line)).1.toList ++
      ((strtok (some line)).1.bind fun _ => (strtok (some line)).2.map words).getD [] := by
  obtain ⟨word, rest, plain, ends, all, same, result⟩ := strtok_parts line
  rw [same, result]
  cases word with
  | nil =>
      rw [all rfl]
      rfl
  | cons first word =>
      cases rest with
      | nil =>
          rw [List.append_nil, words_word plain]
          rfl
      | cons c rest =>
          rw [words_append plain (ends c rfl)]
          rfl

/-- The words that are left behind a saved pointer. -/
def savedWords (tokp : Option (List Char)) : List (List Char) :=
  (tokp.map words).getD []

theorem savedWords_strtok (tokp : Option (List Char)) :
    savedWords tokp =
      match (strtok tokp).1 with
      | none => []
      | some lp => lp :: savedWords (strtok tokp).2 := by
  cases tokp with
  | none => rfl
  | some line =>
      have taken := words_strtok line
      cases found : (strtok (some line)).1 with
      | none =>
          rw [found] at taken
          exact taken
      | some lp =>
          rw [found] at taken
          exact taken

theorem collectArgs_eq (room : Nat) (tokp : Option (List Char)) :
    collectArgs room tokp =
      ((savedWords tokp).take room, decide (room < (savedWords tokp).length)) := by
  induction room generalizing tokp with
  | zero =>
      rw [savedWords_strtok, collectArgs]
      cases (strtok tokp).1 with
      | none => rfl
      | some lp => simp
  | succ room ih =>
      rw [savedWords_strtok, collectArgs, ih]
      cases (strtok tokp).1 with
      | none => rfl
      | some lp => simp

/-- The command is the first word and its arguments the others, when they fit. -/
theorem splitLine_eq (line : List Char) :
    splitLine line =
      (if (words line).length ≤ shellMaxArguments + 1 then (words line).head? else none,
        (words line).tail.take shellMaxArguments) := by
  have first : words line =
      match (strtok (some line)).1 with
      | none => []
      | some lp => lp :: savedWords (strtok (some line)).2 := savedWords_strtok (some line)
  have split : splitLine line =
      (if (collectArgs shellMaxArguments (strtok (some line)).2).2 then none
        else (strtok (some line)).1,
        (collectArgs shellMaxArguments (strtok (some line)).2).1) := rfl
  rw [split, collectArgs_eq, first]
  cases found : (strtok (some line)).1 with
  | none =>
      obtain ⟨word, rest, _, _, all, _, result⟩ := strtok_parts line
      rw [result] at found ⊢
      cases word with
      | nil =>
          rw [all rfl]
          rfl
      | cons c word => cases found
  | some lp =>
      simp only [List.length_cons, List.tail_cons, List.head?_cons]
      by_cases fits : (savedWords (strtok (some line)).2).length ≤ shellMaxArguments
      · rw [if_neg (by simpa using fits), if_pos (by omega)]
      · rw [if_pos (by simpa using fits), if_neg (by omega)]

end Synesthesia.Shell
