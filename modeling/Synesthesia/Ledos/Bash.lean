/-
`bash.c` and the part of `shell.c` that runs a command.

A handler is a program over the requests it makes.  Reading the string that
`argv[k]` points to is a request of its own, so what a handler dereferences can be
told from its runs.  A loop that reads no argument is one request, answered by
what the loop leaves behind.
-/

import Synesthesia.Prog.Requests
import Synesthesia.Ledos.ShellLine

namespace Synesthesia.Bash

open Synesthesia.Prog
open Synesthesia.Shell

/-! ### Requests -/

abbrev FResult := Nat

inductive OpenMode where
  | faRead
  | faCreateNew

/-- Calls of the file system; `listEntries` and `typeFile` are the loops of
`cmd_ll`, `cmd_cat` and `cmd_cath`. -/
inductive FatFs where
  | fOpen (name : List Char) (mode : OpenMode)
  | fClose
  | fRename (existing new : List Char)
  | fChdir (name : List Char)
  | fGetcwd
  | fOpendir
  | listEntries
  | typeFile (hex : Bool)

/-- What is done without an answer; `awaitQ` is the loop that ends at a `q`. -/
inductive Action where
  | altPrintf (text : String)
  | printMemory
  | printKernel
  | printTime
  | printBashBuff
  | printReport
  | printStarting
  | sleep (milliseconds : Nat)
  | setCurrentAcid (name : String)
  | enableCortex
  | sendAcidTp
  | awaitQ
  | disableCortex

inductive Request where
  | argv (k : Nat)
  | fatFs (call : FatFs)
  | fRead (size : Nat)
  | acidTpIsNull
  | act (action : Action)

def Answer : Request → Type
  | .argv _ => List Char
  | .fatFs _ => FResult
  | .fRead _ => FResult × Nat
  | .acidTpIsNull => Bool
  | .act _ => Unit

abbrev Handler (α : Type) := Requests Request Answer α

def argv (k : Nat) : Handler (List Char) := Requests.call (Request.argv k)
def fatFs (call : FatFs) : Handler FResult := Requests.call (Request.fatFs call)
def fRead (size : Nat) : Handler (FResult × Nat) := Requests.call (Request.fRead size)
def acidTpIsNull : Handler Bool := Requests.call Request.acidTpIsNull
def act (action : Action) : Handler Unit := Requests.call (Request.act action)
def altPrintf (text : String) : Handler Unit := act (.altPrintf text)

/-- Whether `strcasecmp` returns zero. -/
def strcasecmp (s1 s2 : List Char) : Bool :=
  s1.map Char.toLower == s2.map Char.toLower

/-- The `||` of C, which looks at its right side only if the left one is false. -/
def orElse (left : Bool) (right : Handler Bool) : Handler Bool :=
  if left then pure true else right

def helpAsked : Handler Bool := do
  let first ← argv 0
  pure (strcasecmp first "--help".toList)

def decodeFres : FResult → String
  | 0 => "Succeeded"
  | 1 => "A hard error occured in the low level disk I/O layer"
  | 2 => "Assertion failed"
  | 3 => "The physical drive cannot work"
  | 4 => "Could not find the file"
  | 5 => "Could not find the path"
  | 6 => "The path name format is invalid"
  | 7 => "Access denied due to prohibited access or directory full"
  | 8 => "Access denied due to prohibited access"
  | 9 => "The file/directory object is invalid"
  | 10 => "The physical drive is write protected"
  | 11 => "The logical drive number is invalid"
  | 12 => "The volume has no work area"
  | 13 => "There is no valid FAT volume"
  | 14 => "f_mkfs() aborted due to any parameter error"
  | 15 => "Could not get a grant to access the volume within defined period"
  | 16 => "The operation is rejected according to the file sharing policy"
  | 17 => "LFN working buffer could not be allocated"
  | 18 => "Number of open files > _FS_SHARE"
  | 19 => "Given parameter is invalid"
  | _ => ""

def report (before : String) (bashRc : FResult) : Handler Unit :=
  if bashRc ≠ 0 then altPrintf (before ++ decodeFres bashRc ++ "\r\n") else pure ()

/-! ### Handlers -/

/-- The commands that take no argument: `argc > 0` prints the usage. -/
def withoutArguments (usage : String) (body : Handler Unit) (argc : Nat) : Handler Unit :=
  if 0 < argc then altPrintf usage else body

/-- The commands that test `(argc != count) || (strcasecmp(argv[0],"--help") == 0)`. -/
def withArguments (count : Nat) (usage : String) (body : Handler Unit) (argc : Nat) :
    Handler Unit := do
  let help ← orElse (argc != count) helpAsked
  if help then altPrintf usage else body

def cmdMem : Nat → Handler Unit :=
  withoutArguments "Usage: mem\r\n" (act .printMemory)

def cmdTouch : Nat → Handler Unit :=
  withArguments 1 "Usage: touch <filename>\r\n" do
    let name ← argv 0
    let bashRc ← fatFs (.fOpen name .faCreateNew)
    report "" bashRc
    let bashRc ← fatFs .fClose
    report "" bashRc

def cmdMv : Nat → Handler Unit :=
  withArguments 2 "Usage: mv <existing_filename> <new_filename>\r\n" do
    let existing ← argv 0
    let new ← argv 1
    let bashRc ← fatFs (.fRename existing new)
    report "" bashRc

def cmdCd : Nat → Handler Unit :=
  withArguments 1 "Usage: cd <destination_dir>\r\n" do
    let name ← argv 0
    let bashRc ← fatFs (.fChdir name)
    report "" bashRc

def cmdPwd : Nat → Handler Unit :=
  withoutArguments "Usage: pwd\r\n" do
    let bashRc ← fatFs .fGetcwd
    if bashRc ≠ 0 then report "" bashRc else act .printBashBuff

def cmdLl : Nat → Handler Unit :=
  withoutArguments "Usage: ll\r\n" do
    let bashRc ← fatFs .fGetcwd
    if bashRc ≠ 0 then report "Could not get pwd - " bashRc
    else do
      let bashRc ← fatFs .fOpendir
      report "Could not open pwd - " bashRc
      let bashRc ← fatFs .listEntries
      report "" bashRc

def cmdCat : Nat → Handler Unit :=
  withArguments 1 "Usage: cat <filename>\r\n" do
    let name ← argv 0
    let bashRc ← fatFs (.fOpen name .faRead)
    report "" bashRc
    let bashRc ← fatFs (.typeFile false)
    report "" bashRc
    let bashRc ← fatFs .fClose
    report "" bashRc

def cmdCath : Nat → Handler Unit :=
  withArguments 1 "Usage: cath <filename>\r\n" do
    let name ← argv 0
    let bashRc ← fatFs (.fOpen name .faRead)
    report "" bashRc
    let bashRc ← fatFs (.typeFile true)
    altPrintf "\r\n"
    report "" bashRc
    let bashRc ← fatFs .fClose
    report "" bashRc

/-- The tests of `cmd_perf` from number `i` on, `left` of them; the result is `bash_rc`. -/
def perfTests : Nat → Nat → Nat → Handler FResult
  | 0, _, _ => pure 0
  | left + 1, i, size => do
      act (.sleep 1000)
      altPrintf ("Starting Test[" ++ toString i ++ "] - Read " ++ toString size ++
        "B from SDCARD\r\n")
      let name ← argv 0
      let bashRc ← fatFs (.fOpen name .faRead)
      if bashRc ≠ 0 then pure bashRc
      else do
        let (bashRc, br) ← fRead size
        if bashRc ≠ 0 ∨ br = 0 then pure bashRc
        else do
          let bashRc ← fatFs .fClose
          if bashRc ≠ 0 then pure bashRc else perfTests left (i + 1) (size <<< 1)

def cmdPerf : Nat → Handler Unit :=
  withArguments 1 "Usage: perf <filename>\r\n" do
    altPrintf "Reseting Performance Counter ...\r\n"
    act (.sleep 3000)
    altPrintf "Starting Performance Counter ...\r\n"
    let bashRc ← perfTests 3 1 (65536 >>> 2)
    act (.sleep 1000)
    altPrintf "Stopping Performance Counter ...\r\n"
    act (.sleep 3000)
    if bashRc ≠ 0 then report "" bashRc else act .printReport

def acidBox : List String := ["sunshine"]

/-- `update_acid` called with `argv[0]`; true when there is no such plugin. -/
def updateAcid : List String → Handler Bool
  | [] => pure true
  | acidName :: ad => do
      let name ← argv 0
      if strcasecmp acidName.toList name then do
        act (.setCurrentAcid acidName)
        pure false
      else updateAcid ad

def runAcid : Handler Unit := do
  altPrintf "Starting Cortex engines \r\n"
  act .enableCortex
  let null ← acidTpIsNull
  if null then altPrintf "acid_thread not started\r\nExiting ...\r\n"
  else do
    act .printStarting
    act .sendAcidTp
    act .awaitQ
    altPrintf "Stopping plugin ...\r\n"
    act .sendAcidTp
    altPrintf "Shutting down Cortex engines\r\n"
    act .disableCortex
    altPrintf "End of Trip ...\r\n"

def selectAcid (argc : Nat) : Handler Bool :=
  if argc ≠ 0 then updateAcid acidBox else pure false

/-- Unlike its siblings, it tests `argc > 1` before it reads `argv[0]`. -/
def cmdDropAcid (argc : Nat) : Handler Unit := do
  let help ← orElse (decide (1 < argc)) helpAsked
  if help then altPrintf "Usage: drop_acid <plugin_name>\r\n"
  else do
    let missing ← selectAcid argc
    if missing then do
      let name ← argv 0
      altPrintf ("Plugin <" ++ String.ofList name ++ "> not found ... Bummer man :-(\r\n")
    else runAcid

/-! ### Command tables -/

structure ShellCommand where
  scName : String
  scFunction : Nat → Handler Unit

def commands : List ShellCommand :=
  [⟨"mem", cmdMem⟩, ⟨"touch", cmdTouch⟩, ⟨"mv", cmdMv⟩, ⟨"cd", cmdCd⟩, ⟨"pwd", cmdPwd⟩,
    ⟨"ll", cmdLl⟩, ⟨"cat", cmdCat⟩, ⟨"cath", cmdCath⟩, ⟨"perf", cmdPerf⟩,
    ⟨"drop_acid", cmdDropAcid⟩]

def cmdInfo : Nat → Handler Unit :=
  withoutArguments "Usage: info\r\n" (act .printKernel)

def cmdSystime : Nat → Handler Unit :=
  withoutArguments "Usage: systime\r\n" (act .printTime)

def localCommands : List ShellCommand :=
  [⟨"info", cmdInfo⟩, ⟨"systime", cmdSystime⟩]

/-- True when the table has no command of that name. -/
def cmdexec : List ShellCommand → List Char → Nat → Handler Bool
  | [], _, _ => pure true
  | scp :: rest, name, argc =>
      if strcasecmp scp.scName.toList name then do
        scp.scFunction argc
        pure false
      else cmdexec rest name argc

/-- The local commands, then those of `bash.c`. -/
def cmdexecTables (name : List Char) (argc : Nat) : Handler Bool := do
  let unknown ← cmdexec localCommands name argc
  if unknown then cmdexec commands name argc else pure false

def listCommands : List ShellCommand → Handler Unit
  | [] => pure ()
  | scp :: rest => do
      altPrintf ("\t" ++ scp.scName ++ "\r\n")
      listCommands rest

/-- What `shell_thread` does with a command and its arguments. -/
def runCommand (cmd : List Char) (argc : Nat) : Handler Unit :=
  if strcasecmp cmd "exit".toList then
    if 0 < argc then altPrintf "Usage: exit\r\n" else pure ()
  else if strcasecmp cmd "help".toList then
    if 0 < argc then altPrintf "Usage: help\r\n"
    else do
      altPrintf "Commands:\r\n\thelp\r\n\texit\r\n"
      listCommands localCommands
      listCommands commands
      altPrintf "\r\n"
  else do
    let unknown ← cmdexecTables cmd argc
    if unknown then altPrintf (String.ofList cmd ++ " ???\r\n") else pure ()

def runLine (line : List Char) : Handler Unit :=
  match (splitLine line).1 with
  | none => pure ()
  | some cmd => runCommand cmd (splitLine line).2.length

/-! ### Arguments that are there -/

/--
The answers a program can get.  Behind `argv[k]` stands the argument if there is
one; what is read through the `NULL` at `argv[argc]`, or beyond it, is anything.
-/
def answers (args : List (List Char)) : (request : Request) → Answer request → Prop
  | .argv k, text => ∀ inside : k < args.length, text = args.get ⟨k, inside⟩
  | .fatFs _, _ => True
  | .fRead _, _ => True
  | .acidTpIsNull, _ => True
  | .act _, _ => True

/-- `argv[k]` is dereferenced for `k < argc` only. -/
def inArguments (argc : Nat) : Request → Prop
  | .argv k => k < argc
  | .fatFs _ => True
  | .fRead _ => True
  | .acidTpIsNull => True
  | .act _ => True

/-- No run of the line touches an argument that is missing. -/
def TouchesPresent (line : List Char) : Prop :=
  (runLine line).Ensures (answers (splitLine line).2) (inArguments (splitLine line).2.length)
    fun _ => True

/-! ### Requests that read no argument -/

section Reads

variable {args : List (List Char)}

/-- Every run of the program stays within the arguments. -/
def Reads (args : List (List Char)) {α : Type} (program : Handler α) : Prop :=
  program.Ensures (answers args) (inArguments args.length) fun _ => True

theorem reads_pure {α : Type} (value : α) : Reads args (pure value : Handler α) :=
  trivial

theorem reads_act (action : Action) : Reads args (act action) :=
  ⟨trivial, fun _ _ => trivial⟩

theorem reads_altPrintf (text : String) : Reads args (altPrintf text) :=
  reads_act _

theorem reads_fatFs (call : FatFs) : Reads args (fatFs call) :=
  ⟨trivial, fun _ _ => trivial⟩

theorem reads_fRead (size : Nat) : Reads args (fRead size) :=
  ⟨trivial, fun _ _ => trivial⟩

theorem reads_acidTpIsNull : Reads args acidTpIsNull :=
  ⟨trivial, fun _ _ => trivial⟩

theorem reads_argv {k : Nat} (inside : k < args.length) : Reads args (argv k) :=
  ⟨inside, fun _ _ => trivial⟩

theorem reads_bind {α β : Type} {program : Handler α} {next : α → Handler β}
    (first : Reads args program) (second : ∀ value, Reads args (next value)) :
    Reads args (program >>= next) :=
  (Requests.ensures_bind program next _).mpr (first.mono fun value _ => second value)

theorem reads_ite {α : Type} {p : Prop} [Decidable p] {first second : Handler α}
    (yes : p → Reads args first) (no : ¬ p → Reads args second) :
    Reads args (if p then first else second) := by
  by_cases holds : p
  · rw [if_pos holds]
    exact yes holds
  · rw [if_neg holds]
    exact no holds

theorem reads_report (before : String) (bashRc : FResult) : Reads args (report before bashRc) :=
  reads_ite (fun _ => reads_altPrintf _) fun _ => reads_pure _

theorem reads_orElse {left : Bool} {right : Handler Bool}
    (reads : left = false → Reads args right) : Reads args (orElse left right) := by
  cases left with
  | false => exact reads rfl
  | true => exact reads_pure _

theorem helpAsked_reads (present : 0 < args.length) : Reads args helpAsked :=
  reads_bind (reads_argv present) fun _ => reads_pure _

/-! ### Handlers that read what is there -/

theorem withoutArguments_reads {body : Handler Unit} (usage : String) (reads : Reads args body)
    (argc : Nat) : Reads args (withoutArguments usage body argc) :=
  reads_ite (fun _ => reads_altPrintf _) fun _ => reads

/-- The test `argc != count` protects the reading of `argv[0]` when `count` is not zero. -/
theorem withArguments_reads {count : Nat} {body : Handler Unit} (positive : 0 < count)
    (usage : String) (reads : args.length = count → Reads args body) :
    Reads args (withArguments count usage body args.length) := by
  unfold withArguments
  by_cases same : args.length = count
  · rw [same, bne_self_eq_false]
    refine reads_bind (helpAsked_reads (by omega)) fun help => ?_
    exact reads_ite (fun _ => reads_altPrintf _) fun _ => reads same
  · rw [bne_iff_ne.mpr same]
    exact reads_altPrintf _

theorem perfTests_reads (present : 0 < args.length) (left i size : Nat) :
    Reads args (perfTests left i size) := by
  induction left generalizing i size with
  | zero => exact reads_pure _
  | succ left ih =>
      unfold perfTests
      refine reads_bind (reads_act _) fun _ => reads_bind (reads_altPrintf _) fun _ =>
        reads_bind (reads_argv present) fun name => reads_bind (reads_fatFs _) fun bashRc => ?_
      refine reads_ite (fun _ => reads_pure _) fun _ => reads_bind (reads_fRead _) fun read => ?_
      refine reads_ite (fun _ => reads_pure _) fun _ => reads_bind (reads_fatFs _) fun bashRc => ?_
      exact reads_ite (fun _ => reads_pure _) fun _ => ih _ _

theorem updateAcid_reads (present : 0 < args.length) (ad : List String) :
    Reads args (updateAcid ad) := by
  induction ad with
  | nil => exact reads_pure _
  | cons acidName ad ih =>
      unfold updateAcid
      refine reads_bind (reads_argv present) fun name => ?_
      refine reads_ite (fun _ => ?_) fun _ => ih
      exact reads_bind (reads_act _) fun _ => reads_pure _

theorem runAcid_reads : Reads args runAcid := by
  unfold runAcid
  refine reads_bind (reads_altPrintf _) fun _ => reads_bind (reads_act _) fun _ =>
    reads_bind reads_acidTpIsNull fun null => ?_
  refine reads_ite (fun _ => reads_altPrintf _) fun _ => ?_
  refine reads_bind (reads_act _) fun _ => reads_bind (reads_act _) fun _ => ?_
  refine reads_bind (reads_act _) fun _ => reads_bind (reads_altPrintf _) fun _ => ?_
  refine reads_bind (reads_act _) fun _ => reads_bind (reads_altPrintf _) fun _ => ?_
  exact reads_bind (reads_act _) fun _ => reads_altPrintf _

theorem cmdDropAcid_reads (present : 0 < args.length) :
    Reads args (cmdDropAcid args.length) := by
  unfold cmdDropAcid
  refine reads_bind (reads_orElse fun _ => helpAsked_reads present) fun help => ?_
  refine reads_ite (fun _ => reads_altPrintf _) fun _ => ?_
  refine reads_bind ?_ fun missing => reads_ite (fun _ => ?_) fun _ => runAcid_reads
  · exact reads_ite (fun _ => updateAcid_reads present _) fun _ => reads_pure _
  · exact reads_bind (reads_argv present) fun _ => reads_altPrintf _

theorem openFile_reads {next : FResult → Handler Unit} (mode : OpenMode)
    (present : 0 < args.length) (reads : ∀ bashRc, Reads args (next bashRc)) :
    Reads args (argv 0 >>= fun name => fatFs (.fOpen name mode) >>= next) :=
  reads_bind (reads_argv present) fun _ => reads_bind (reads_fatFs _) reads

theorem reportClose_reads (bashRc : FResult) :
    Reads args (report "" bashRc >>= fun _ => fatFs .fClose >>= fun bashRc =>
      report "" bashRc) :=
  reads_bind (reads_report _ _) fun _ => reads_bind (reads_fatFs _) fun _ => reads_report _ _

theorem cmdTouch_reads : Reads args (cmdTouch args.length) :=
  withArguments_reads Nat.one_pos _ fun one =>
    openFile_reads _ (by omega) fun bashRc => reportClose_reads bashRc

theorem cmdCat_reads : Reads args (cmdCat args.length) :=
  withArguments_reads Nat.one_pos _ fun one =>
    openFile_reads _ (by omega) fun bashRc => reads_bind (reads_report _ _) fun _ =>
      reads_bind (reads_fatFs _) fun bashRc => reportClose_reads bashRc

theorem cmdCath_reads : Reads args (cmdCath args.length) :=
  withArguments_reads Nat.one_pos _ fun one =>
    openFile_reads _ (by omega) fun bashRc => reads_bind (reads_report _ _) fun _ =>
      reads_bind (reads_fatFs _) fun bashRc => reads_bind (reads_altPrintf _) fun _ =>
        reportClose_reads bashRc

theorem cmdMv_reads : Reads args (cmdMv args.length) :=
  withArguments_reads Nat.two_pos _ fun two =>
    reads_bind (reads_argv (by omega)) fun _ => reads_bind (reads_argv (by omega)) fun _ =>
      reads_bind (reads_fatFs _) fun _ => reads_report _ _

theorem cmdCd_reads : Reads args (cmdCd args.length) :=
  withArguments_reads Nat.one_pos _ fun one =>
    reads_bind (reads_argv (by omega)) fun _ => reads_bind (reads_fatFs _) fun _ =>
      reads_report _ _

theorem cmdPerf_reads : Reads args (cmdPerf args.length) := by
  refine withArguments_reads Nat.one_pos _ fun one => ?_
  refine reads_bind (reads_altPrintf _) fun _ => reads_bind (reads_act _) fun _ =>
    reads_bind (reads_altPrintf _) fun _ =>
      reads_bind (perfTests_reads (by omega) _ _ _) fun bashRc => ?_
  refine reads_bind (reads_act _) fun _ => reads_bind (reads_altPrintf _) fun _ =>
    reads_bind (reads_act _) fun _ => ?_
  exact reads_ite (fun _ => reads_report _ _) fun _ => reads_act _

theorem cmdPwd_reads (argc : Nat) : Reads args (cmdPwd argc) :=
  withoutArguments_reads _ (reads_bind (reads_fatFs _) fun _ =>
    reads_ite (fun _ => reads_report _ _) fun _ => reads_act _) argc

theorem cmdLl_reads (argc : Nat) : Reads args (cmdLl argc) := by
  refine withoutArguments_reads _ (reads_bind (reads_fatFs _) fun bashRc => ?_) argc
  refine reads_ite (fun _ => reads_report _ _) fun _ => ?_
  refine reads_bind (reads_fatFs _) fun _ => reads_bind (reads_report _ _) fun _ => ?_
  exact reads_bind (reads_fatFs _) fun _ => reads_report _ _

/-! ### Tables -/

theorem cmdexec_reads {name : List Char} {table : List ShellCommand}
    (reads : ∀ scp ∈ table, strcasecmp scp.scName.toList name = true →
      Reads args (scp.scFunction args.length)) :
    Reads args (cmdexec table name args.length) := by
  induction table with
  | nil => exact reads_pure _
  | cons scp rest ih =>
      unfold cmdexec
      refine reads_ite (fun found => ?_) fun _ => ih fun other member =>
        reads other (List.mem_cons_of_mem _ member)
      exact reads_bind (reads scp List.mem_cons_self found) fun _ => reads_pure _

theorem localCommands_read {scp : ShellCommand} (member : scp ∈ localCommands) (argc : Nat) :
    Reads args (scp.scFunction argc) := by
  simp only [localCommands, List.mem_cons, List.not_mem_nil, or_false] at member
  rcases member with rfl | rfl
  · exact withoutArguments_reads _ (reads_act _) argc
  · exact withoutArguments_reads _ (reads_act _) argc

theorem commands_read {scp : ShellCommand} (member : scp ∈ commands)
    (present : scp.scName = "drop_acid" → 0 < args.length) :
    Reads args (scp.scFunction args.length) := by
  simp only [commands, List.mem_cons, List.not_mem_nil, or_false] at member
  rcases member with rfl | rfl | rfl | rfl | rfl | rfl | rfl | rfl | rfl | rfl
  · exact withoutArguments_reads _ (reads_act _) _
  · exact cmdTouch_reads
  · exact cmdMv_reads
  · exact cmdCd_reads
  · exact cmdPwd_reads _
  · exact cmdLl_reads _
  · exact cmdCat_reads
  · exact cmdCath_reads
  · exact cmdPerf_reads
  · exact cmdDropAcid_reads (present rfl)

theorem listCommands_reads (table : List ShellCommand) : Reads args (listCommands table) := by
  induction table with
  | nil => exact reads_pure _
  | cons scp rest ih => exact reads_bind (reads_altPrintf _) fun _ => ih

theorem cmdexecTables_reads {cmd : List Char}
    (present : strcasecmp "drop_acid".toList cmd = true → 0 < args.length) :
    Reads args (cmdexecTables cmd args.length) := by
  refine reads_bind (cmdexec_reads fun scp member _ => localCommands_read member _)
    fun unknown => reads_ite (fun _ => cmdexec_reads fun scp member found => ?_)
      fun _ => reads_pure _
  refine commands_read member fun name => present ?_
  rwa [name] at found

theorem runCommand_reads {cmd : List Char}
    (present : strcasecmp "drop_acid".toList cmd = true → 0 < args.length) :
    Reads args (runCommand cmd args.length) := by
  unfold runCommand
  refine reads_ite (fun _ => ?_) fun _ => reads_ite (fun _ => ?_) fun _ => ?_
  · exact reads_ite (fun _ => reads_altPrintf _) fun _ => reads_pure _
  · refine reads_ite (fun _ => reads_altPrintf _) fun _ => ?_
    exact reads_bind (reads_altPrintf _) fun _ => reads_bind (listCommands_reads _) fun _ =>
      reads_bind (listCommands_reads _) fun _ => reads_altPrintf _
  · refine reads_bind (cmdexecTables_reads present) fun unknown => ?_
    exact reads_ite (fun _ => reads_altPrintf _) fun _ => reads_pure _

theorem cmdexec_skip {name : List Char} {table : List ShellCommand}
    (other : ∀ scp ∈ table, strcasecmp scp.scName.toList name = false)
    (rest : List ShellCommand) (argc : Nat) :
    cmdexec (table ++ rest) name argc = cmdexec rest name argc := by
  induction table with
  | nil => rfl
  | cons scp table ih =>
      rw [List.cons_append, cmdexec, other scp List.mem_cons_self]
      exact ih fun next member => other next (List.mem_cons_of_mem _ member)

/-- Without arguments every spelling of `drop_acid` reaches its handler. -/
theorem runCommand_dropAcid {cmd : List Char}
    (named : strcasecmp "drop_acid".toList cmd = true) : ¬ Reads [] (runCommand cmd 0) := by
  have lower : cmd.map Char.toLower = "drop_acid".toList.map Char.toLower :=
    (eq_of_beq named).symm
  have exit : strcasecmp cmd "exit".toList = false := by
    rw [strcasecmp, lower]
    decide
  have help : strcasecmp cmd "help".toList = false := by
    rw [strcasecmp, lower]
    decide
  have others : ∀ scp ∈ localCommands ++ commands.dropLast,
      strcasecmp scp.scName.toList cmd = false := by
    unfold strcasecmp
    rw [lower]
    simp only [localCommands, commands, List.dropLast, List.cons_append, List.nil_append,
      List.forall_mem_cons]
    decide
  have locals : cmdexec localCommands cmd 0 = pure true := by
    rw [← List.append_nil localCommands, cmdexec_skip fun scp member =>
      others scp (List.mem_append_left _ member)]
    rfl
  have table : cmdexec commands cmd 0 = (cmdDropAcid 0 >>= fun _ => pure false) := by
    have last : commands = commands.dropLast ++ [⟨"drop_acid", cmdDropAcid⟩] := rfl
    rw [last, cmdexec_skip fun scp member => others scp (List.mem_append_right _ member)]
    exact if_pos named
  have run : runCommand cmd 0 = ((cmdDropAcid 0 >>= fun _ => pure false) >>= fun unknown =>
      if unknown then altPrintf (String.ofList cmd ++ " ???\r\n") else pure ()) := by
    unfold runCommand cmdexecTables
    rw [exit, help, locals, table]
    rfl
  intro reads
  rw [run] at reads
  exact absurd reads.1 (Nat.not_lt_zero 0)

end Reads

/-! ### Lines -/

/-- Every command is run with its arguments in place, except `drop_acid` alone. -/
theorem touchesPresent_iff (line : List Char) :
    TouchesPresent line ↔
      ¬ ∃ name, words line = [name] ∧ strcasecmp "drop_acid".toList name = true := by
  have split := splitLine_eq line
  constructor
  · rintro reads ⟨name, alone, named⟩
    rw [alone] at split
    unfold TouchesPresent runLine at reads
    rw [split] at reads
    exact runCommand_dropAcid named reads
  · intro accompanied
    unfold TouchesPresent runLine
    rw [split]
    by_cases fits : (words line).length ≤ shellMaxArguments + 1
    · rw [if_pos fits]
      cases split' : words line with
      | nil => exact trivial
      | cons cmd rest =>
          refine runCommand_reads fun named => ?_
          cases rest with
          | nil => exact absurd ⟨cmd, split', named⟩ accompanied
          | cons first rest => exact Nat.succ_pos _
    · rw [if_neg fits]
      exact trivial

def typedLine : List (Option (BitVec 8)) :=
  "drop_acid\r".toList.map fun c => some (BitVec.ofNat 8 c.toNat)

theorem dropAcid_touches_missing :
    ((shellGetLine shellMaxLineLength (List.replicate shellMaxLineLength ' ') 0 typedLine).map
        fun result => (result.1, text result.2)) = some (false, "drop_acid".toList) ∧
      ¬ TouchesPresent "drop_acid".toList := by
  constructor
  · decide
  · have split : splitLine "drop_acid".toList = (some "drop_acid".toList, []) := by decide
    unfold TouchesPresent runLine
    rw [split]
    exact runCommand_dropAcid (by decide)

end Synesthesia.Bash
