import MagicLantern.Library.CString

/-!
# Config files

The variables of the program, and those of each module, are saved in text files. Each line has the
name and the value of a variable that does not have its default value. The text is made in a buffer
of fixed size. When a file is read, lines that begin with `#` and empty lines are skipped; the last
line counts only if it has an end.

Source: `src/src/config.c`, `src/src/config.h`, `src/src/module.h`; `src/src/stdio.c`.
-/

namespace MagicLantern.Config

open CString hiding isspace

/-- `isspace` of `stdio.c`, for characters other than the terminating zero. -/
def isspace (c : Char) : Bool :=
  c = ' ' || c = '\r' || c = '\n' || c = '\t'

theorem isspace_eq_false {c : Char} (h : CString.isspace c = false) : isspace c = false := by
  simp only [CString.isspace, Bool.or_eq_false_iff] at h
  simp [isspace, h]

/-- `MAX_SIZE`, the size of the buffer. -/
def maxSize : ℕ := 10240

/-- `MAX_NAME_LEN`. -/
def maxNameLen : ℕ := 64

/-- `MAX_VALUE_LEN`. -/
def maxValueLen : ℕ := 60

/-- The size of `line_buf`. -/
def lineSize : ℕ := 1000

/-- The name of a variable. -/
structure ConfigName where
  chars : List Char
  ne_nil : chars ≠ []
  length_le : chars.length ≤ 63
  ne_comment : chars.head? ≠ some '#'
  valid : ∀ c ∈ chars, isspace c = false ∧ c ≠ '=' ∧ c ≠ '\x00'

/-- A table of variables with their default values. -/
structure ConfigTable (n : ℕ) where
  name : Fin n → ConfigName
  name_inj : ∀ i j, (name i).chars = (name j).chars → i = j
  default : Fin n → Int32

/-- The values of the variables. -/
abbrev Values (n : ℕ) := Fin n → Int32

/-- A text in one line of the header, with at most `k` characters. -/
structure HeaderText (k : ℕ) where
  chars : List Char
  oneLine : '\n' ∉ chars
  length_le : chars.length ≤ k

/-- The strings of `version.c`. -/
structure Build where
  version : HeaderText 255
  id : HeaderText 255
  date : HeaderText 255
  user : HeaderText 255

/-- The time from `LoadCalendarFromRTC`. -/
structure Calendar where
  year : Int32
  mon : Int32
  mday : Int32
  hour : Int32
  min : Int32
  sec : Int32

/-- The name of a module and the name of its file. -/
structure ModuleEntry where
  name : HeaderText 8
  filename : HeaderText 31

/-! ### Saving -/

/-- The lines about the build. -/
def buildText (b : Build) : List Char :=
  "# Magic Lantern ".toList ++ b.version.chars ++ " (".toList ++ b.id.chars ++ ")\n".toList ++
    "# Built on ".toList ++ b.date.chars ++ " by ".toList ++ b.user.chars ++ "\n".toList

/-- The line about the time. -/
def savedText (now : Calendar) : List Char :=
  "# Configuration saved on ".toList ++ formatPadded 4 (now.year + 1900).toInt ++ "/".toList ++
    formatPadded 2 (now.mon + 1).toInt ++ "/".toList ++ formatPadded 2 now.mday.toInt ++
    " ".toList ++ formatPadded 2 now.hour.toInt ++ ":".toList ++ formatPadded 2 now.min.toInt ++
    ":".toList ++ formatPadded 2 now.sec.toInt ++ "\n".toList

/-- The lines about a module. -/
def moduleText (m : ModuleEntry) : List Char :=
  "# Config file for module ".toList ++ m.name.chars ++ " (".toList ++ m.filename.chars ++
    ")\n\n".toList

section

variable {n : ℕ} (T : ConfigTable n) (values : Values n)

/-- The line for a variable. -/
def entryLine (i : Fin n) : List Char :=
  (T.name i).chars ++ " = ".toList ++ formatInt (values i).toInt ++ "\r\n".toList

/-- A variable is saved, unless it has its default value. -/
def saveEntry (msg : List Char) (i : Fin n) : List Char :=
  if values i = T.default i then msg
  else appendLimited msg (maxSize - msg.length - 1) (entryLine T values i)

/-- The text that `config_save_file` writes. -/
def configSaveFile (b : Build) (now : Calendar) : List Char :=
  let msg := appendLimited [] maxSize (buildText b)
  let msg := appendLimited msg (maxSize - msg.length) (savedText now)
  (List.finRange n).foldl (saveEntry T values) msg

/-- The text that `module_config_save` writes; `none` if the file is removed. -/
def moduleConfigSave (m : ModuleEntry) : Option (List Char) :=
  let msg := appendLimited [] maxSize (moduleText m)
  let msg := (List.finRange n).foldl (saveEntry T values) msg
  if ∀ i, values i = T.default i then none else some msg

end

/-! ### Reading -/

/-- `read_line` with room for `size` characters: the line and the rest of the file. -/
def readLine : ℕ → List Char → Option (List Char × List Char)
  | 0, _ => none
  | _ + 1, [] => none
  | size + 1, c :: input =>
    if c = '\r' then readLine (size + 1) input
    else if c = '\n' then some ([], input)
    else (readLine size input).map fun (line, rest) => (c :: line, rest)

theorem length_of_readLine {size : ℕ} {input line rest : List Char}
    (h : readLine size input = some (line, rest)) : rest.length < input.length := by
  fun_induction readLine size input generalizing line with
  | case1 | case2 => cases h
  | case3 _ _ ih => exact Nat.lt_succ_of_lt (ih h)
  | case4 =>
    obtain ⟨-, rfl⟩ := Prod.mk.inj (Option.some.inj h)
    exact Nat.lt_succ_self _
  | case5 _ _ _ _ _ ih =>
    obtain ⟨⟨line', rest'⟩, hread, heq⟩ := Option.map_eq_some_iff.1 h
    obtain ⟨-, rfl⟩ := Prod.mk.inj heq
    exact Nat.lt_succ_of_lt (ih hread)

/-- `config_parse_line`: the name and the value. -/
def configParseLine (line : List Char) : Option (List Char × List Char) :=
  let rest := line.dropWhile isspace
  let name := (rest.takeWhile fun c => !isspace c && c != '=').take maxNameLen
  if name.length = maxNameLen then none
  else
    match (rest.drop name.length).dropWhile isspace with
    | '=' :: rest =>
      let value := (rest.dropWhile isspace).take maxValueLen
      some (name, (value.reverse.dropWhile isspace).reverse)
    | _ => none

section

variable {n : ℕ} (T : ConfigTable n)

/-- The loop of `config_parse` and `module_config_parse`; `assign` does what is to be done with a
name and a value. -/
def parseLines (assign : List Char × List Char → Values n → Values n) (input : List Char)
    (values : Values n) : Values n :=
  match h : readLine lineSize input with
  | none => values
  | some (line, rest) =>
    have := length_of_readLine h
    if (ofBuffer line).head? = some '#' ∨ ofBuffer line = [] then parseLines assign rest values
    else
      match configParseLine (ofBuffer line) with
      | none => values
      | some cfg => parseLines assign rest (assign cfg values)
termination_by input.length

/-- `config_auto_parse`: the first variable with that name is set. -/
def configAutoParse (cfg : List Char × List Char) (values : Values n) : Values n :=
  match (List.finRange n).find? fun i => (T.name i).chars = cfg.1 with
  | some i => Function.update values i (Int32.ofInt (atoi cfg.2))
  | none => values

/-- `config_parse`. -/
def configParse (input : List Char) (values : Values n) : Values n :=
  parseLines (configAutoParse T) input values

/-- The loop over the variables of a module: all with that name are set. -/
def moduleAssign (cfg : List Char × List Char) (values : Values n) : Values n :=
  (List.finRange n).foldl (fun values i =>
    if (T.name i).chars = cfg.1 then Function.update values i (Int32.ofInt (atoi cfg.2))
    else values) values

/-- `module_config_parse`. -/
def moduleConfigParse (input : List Char) (values : Values n) : Values n :=
  parseLines (moduleAssign T) input values

/-- `module_config_load`; without a file nothing is changed. -/
def moduleConfigLoad (file : Option (List Char)) (values : Values n) : Values n :=
  match file with
  | some input => moduleConfigParse T input values
  | none => values

end

end MagicLantern.Config
