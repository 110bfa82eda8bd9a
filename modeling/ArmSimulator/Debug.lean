import ArmSimulator.Lib.Fault
import ArmSimulator.Lib.SortedTable
import ArmSimulator.Stdio
import Mathlib.Data.List.Lex

/-!
# `debug.c`: the table of debugged files

`add_debug_to` inserts the name of a file, which may be there already, and `__is_debugged` searches
for one by bisection. A pointer to a string is the string, and the null pointer is `none`. An access
to `debugged_files` outside its bounds, or the comparison of a null pointer, is a fault.
-/

namespace ArmSimulator

/-! ## Strings -/

/-- A string: its bytes before the NUL that ends it. -/
abbrev CString := { s : List Byte // Ascii.nul ∉ s }

/-- `strcmp`: the difference of the first characters in which the strings differ, as
`unsigned char`; the NUL of the shorter one is a character too. -/
def strcmp : List Byte → List Byte → Int
  | [], [] => 0
  | [], b :: _ => -(b.toNat : Int)
  | a :: _, [] => a.toNat
  | a :: s, b :: t => if a = b then strcmp s t else (a.toNat : Int) - b.toNat

/-! ## The table -/

/-- `MAX_FILES_NUMBER`. -/
abbrev maxFilesNumber : Nat := 64

/-- The variables `debugged_files` and `nb_debugged_files`. -/
structure DebugTable where
  /-- The entries of `debugged_files`, of which there are `maxFilesNumber`. -/
  debuggedFiles : Nat → Option CString
  nbDebuggedFiles : Int

/-- The initial values of the table. -/
def DebugTable.initial : DebugTable where
  debuggedFiles := fun _ => none
  nbDebuggedFiles := 0

/-- What an access to the table can do wrong. -/
inductive DebugFault where
  /-- It reads or writes `debugged_files[i]` outside the array. -/
  | outOfRange (i : Int)
  /-- It compares a null pointer. -/
  | nullPointer
  deriving DecidableEq, Repr

/-- A function on the table. -/
abbrev DebugM (α : Type) := Fallible DebugFault DebugTable α

/-- `nb_debugged_files`. -/
def readNbFiles : DebugM Int := do
  let table ← get
  return table.nbDebuggedFiles

/-- `debugged_files[i]`. -/
def readFile (i : Int) : DebugM (Option CString) := do
  Fallible.check (.outOfRange i) (0 ≤ i ∧ i < maxFilesNumber)
  let table ← get
  return table.debuggedFiles i.toNat

/-- `debugged_files[i] = name`. -/
def writeFile (i : Int) (name : Option CString) : DebugM Unit := do
  Fallible.check (.outOfRange i) (0 ≤ i ∧ i < maxFilesNumber)
  modify fun table =>
    { table with debuggedFiles := Function.update table.debuggedFiles i.toNat name }

/-- `strcmp(debugged_files[i], name)`. -/
def compareFile (i : Int) (name : CString) : DebugM Int := do
  let file ← readFile i
  match file with
  | some file => return strcmp file name
  | none => Fallible.fault .nullPointer

/-- The first loop of `add_debug_to`: the index of the first entry that is not below the name. -/
def positionLoop (name : CString) (i : Int) : DebugM Int := do
  let number ← readNbFiles
  if i < number ∧ i < maxFilesNumber then
    let result ← compareFile i name
    if result < 0 then
      positionLoop name (i + 1)
    else
      return i
  else
    return i
termination_by (maxFilesNumber - i).toNat
decreasing_by
  omega

/-- The second loop of `add_debug_to`: the entries from `i` on are moved up. -/
def shiftLoop (i j : Int) : DebugM Unit :=
  if j > i then do
    let file ← readFile (j - 1)
    writeFile j file
    shiftLoop i (j - 1)
  else
    return ()
termination_by (j - i).toNat

/-- `add_debug_to`. -/
def addDebugTo (name : CString) : DebugM Unit := do
  let i ← positionLoop name 0
  if i ≥ maxFilesNumber then
    return ()
  else
    let number ← readNbFiles
    shiftLoop i number
    writeFile i (some name)
    modify fun table => { table with nbDebuggedFiles := table.nbDebuggedFiles + 1 }

/-- The division of `int` rounds to zero, and the middle is between the bounds. -/
theorem le_middle {first last : Int} (h : first < last) :
    first ≤ (first + last).tdiv 2 ∧ (first + last).tdiv 2 ≤ last := by
  have hsign : Int.sign 2 = 1 := rfl
  rw [Int.tdiv_eq_ediv, hsign]
  split_ifs
  · omega
  · omega

/-- `__is_debugged` from the loop on, with its locals `from` and `to`. -/
def searchLoop (name : CString) (first last : Int) : DebugM Int :=
  if first < last then do
    let middle := (first + last).tdiv 2
    let result ← compareFile middle name
    if result < 0 then
      searchLoop name (middle + 1) last
    else if result > 0 then
      searchLoop name first (middle - 1)
    else
      return 1
  else if first = last then do
    let result ← compareFile first name
    return if result = 0 then 1 else 0
  else
    return 0
termination_by (last - first).toNat
decreasing_by
  all_goals
    have hm := le_middle ‹first < last›
    omega

/-- `__is_debugged`. -/
def isDebugged (name : CString) : DebugM Int := do
  let number ← readNbFiles
  searchLoop name 0 (number - 1)

/-- Calls of `add_debug_to`, one after the other. -/
def addDebugTos (names : List CString) : DebugM Unit := forM names addDebugTo

end ArmSimulator
