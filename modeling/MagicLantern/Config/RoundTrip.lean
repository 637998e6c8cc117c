import MagicLantern.Config.File

/-!
# Saving and reading a config file

What is saved and read again should be the same. If the text does not fit, the line that is cut
has no end and is not read, so that each variable has its saved value or its default value.
A text fits if it has at most 10238 characters: one less than the buffer with the terminating zero
has room for, as the variables are written with a limit that is too small by one. A text of 10239
characters loses its last line feed, and with it the last variable.

## Main results

* `config_roundTrip_iff` — which texts are read back.
* `config_lastLine_lost`.
-/

namespace MagicLantern.Config

open List CString

/-! ### Reading lines -/

variable {size : ℕ}

/-- A line with an end is read, without carriage returns. -/
theorem readLine_line {l : List Char} (rest : List Char) (hline : '\n' ∉ l)
    (hsize : l.length < size) :
    readLine size (l ++ '\n' :: rest) = some (l.filter (· ≠ '\r'), rest) := by
  induction l generalizing size with
  | nil =>
    obtain ⟨size, rfl⟩ := Nat.exists_eq_succ_of_ne_zero (Nat.ne_of_gt hsize)
    simp [readLine]
  | cons c l ih =>
    rw [mem_cons, not_or] at hline
    obtain ⟨hc, hl⟩ := hline
    simp only [length_cons] at hsize
    obtain ⟨size, rfl⟩ := Nat.exists_eq_succ_of_ne_zero (show size ≠ 0 by omega)
    rw [cons_append, readLine]
    split_ifs with hcr hlf
    · rw [ih hl (by omega)]
      simp [hcr]
    · exact absurd hlf.symm hc
    · rw [ih hl (by omega)]
      simp [hcr]

theorem readLine_of_notMem {size : ℕ} {l : List Char} (hline : '\n' ∉ l) :
    readLine size l = none := by
  fun_induction readLine size l with
  | case1 | case2 => rfl
  | case3 _ _ ih => exact ih (not_mem_of_not_mem_cons hline)
  | case4 => exact absurd mem_cons_self hline
  | case5 _ _ _ _ _ ih => rw [ih (not_mem_of_not_mem_cons hline), Option.map_none]

section Parse

variable {n : ℕ} {assign : List Char × List Char → Values n → Values n} {values : Values n}
  {l rest : List Char}

theorem parseLines_of_notMem (hline : '\n' ∉ l) : parseLines assign l values = values := by
  rw [parseLines]
  split
  · rfl
  · next h => simp [readLine_of_notMem hline] at h

theorem parseLines_line (hline : '\n' ∉ l) (hsize : l.length < lineSize) :
    parseLines assign (l ++ '\n' :: rest) values =
      if (ofBuffer (l.filter (· ≠ '\r'))).head? = some '#' ∨
        ofBuffer (l.filter (· ≠ '\r')) = [] then
        parseLines assign rest values
      else
        match configParseLine (ofBuffer (l.filter (· ≠ '\r'))) with
        | none => values
        | some cfg => parseLines assign rest (assign cfg values) := by
  have hread := readLine_line rest hline hsize
  rw [parseLines]
  split
  · next h => simp [hread] at h
  · next line' rest' h =>
    obtain ⟨rfl, rfl⟩ := Prod.mk.inj (Option.some.inj (hread.symm.trans h))
    rfl

theorem parseLines_comment (hline : '\n' ∉ l) (hsize : l.length + 1 < lineSize) :
    parseLines assign ('#' :: l ++ '\n' :: rest) values = parseLines assign rest values := by
  rw [parseLines_line (l := '#' :: l) (by simpa using hline) hsize, if_pos]
  exact .inl (by simp [ofBuffer])

theorem parseLines_empty :
    parseLines assign ('\n' :: rest) values = parseLines assign rest values := by
  rw [← nil_append ('\n' :: rest), parseLines_line (by simp) (by decide), if_pos]
  exact .inr rfl

end Parse

/-! ### Lines of variables -/

section Entries

variable {n : ℕ} {T : ConfigTable n} {values : Values n} {i : Fin n}

/-- The line without its end. -/
def entryText (T : ConfigTable n) (values : Values n) (i : Fin n) : List Char :=
  (T.name i).chars ++ (' ' :: '=' :: ' ' :: formatInt (values i).toInt)

theorem entryLine_eq (i : Fin n) :
    entryLine T values i = (entryText T values i ++ ['\r']) ++ ['\n'] := by
  simp [entryLine, entryText]

theorem length_formatInt (v : Int32) : (formatInt v.toInt).length ≤ 11 :=
  length_formatInt_le v.le_toInt v.toInt_lt

variable (T values) in
theorem length_entryText_le (i : Fin n) : (entryText T values i).length ≤ 77 := by
  have hname := (T.name i).length_le
  have hvalue := length_formatInt (values i)
  simp only [entryText, length_append, length_cons]
  omega

theorem ne_of_mem_entryText {c d : Char} (h : c ∈ entryText T values i)
    (hd : d = '\n' ∨ d = '\r' ∨ d = '\x00') : c ≠ d := by
  rcases mem_append.1 h with hname | hrest
  · obtain ⟨hspace, -, hzero⟩ := (T.name i).valid c hname
    rintro rfl
    rcases hd with rfl | rfl | rfl
    · exact absurd hspace (by decide)
    · exact absurd hspace (by decide)
    · exact hzero rfl
  · have hplain : c = ' ' ∨ c = '=' ∨ c ∈ formatInt (values i).toInt := by
      simp only [mem_cons] at hrest
      tauto
    rcases hplain with rfl | rfl | hvalue
    · rcases hd with rfl | rfl | rfl <;> decide
    · rcases hd with rfl | rfl | rfl <;> decide
    · rcases mem_formatInt hvalue with rfl | hdigit
      · rcases hd with rfl | rfl | rfl <;> decide
      · rcases hd with rfl | rfl | rfl <;> exact ne_of_isDigit hdigit rfl

theorem head?_entryText (i : Fin n) : (entryText T values i).head? = (T.name i).chars.head? := by
  obtain ⟨c, cs, hname⟩ := exists_cons_of_ne_nil (T.name i).ne_nil
  simp [entryText, hname]

theorem configParseLine_entryText (i : Fin n) :
    configParseLine (entryText T values i) =
      some ((T.name i).chars, formatInt (values i).toInt) := by
  have hvalue (c : Char) (hc : c ∈ formatInt (values i).toInt) : isspace c = false :=
    isspace_eq_false (not_isspace_of_mem_formatInt hc)
  have hlen := length_formatInt (values i)
  have hname := (T.name i).length_le
  have htrim : (entryText T values i).dropWhile isspace = entryText T values i := by
    obtain ⟨c, cs, hcons⟩ := exists_cons_of_ne_nil (T.name i).ne_nil
    have hc := ((T.name i).valid c (by simp [hcons])).1
    rw [entryText, hcons, cons_append, dropWhile_cons_of_neg (by simp [hc])]
  have htake : (entryText T values i).takeWhile (fun c => !isspace c && c != '=') =
      (T.name i).chars := by
    rw [entryText, takeWhile_append_of_pos fun c hc => by
      have hvalid := (T.name i).valid c hc
      simp [hvalid.1, hvalid.2.1]]
    simp [isspace]
  have hrest : ((entryText T values i).drop (T.name i).chars.length).dropWhile isspace =
      '=' :: ' ' :: formatInt (values i).toInt := by
    rw [entryText]
    simp [isspace]
  have hblank : (' ' :: formatInt (values i).toInt).dropWhile isspace =
      formatInt (values i).toInt := by
    rw [dropWhile_cons_of_pos rfl, dropWhile_of_forall hvalue]
  rw [configParseLine, htrim, htake, take_of_length_le (by rw [maxNameLen]; omega),
    if_neg (by rw [maxNameLen]; omega), hrest]
  simp only [hblank]
  rw [take_of_length_le (by rw [maxValueLen]; omega),
    dropWhile_of_forall fun c hc => hvalue c (mem_reverse.1 hc), reverse_reverse]

/-- The line of a variable is read, and its value is assigned. -/
theorem parseLines_entryLine {assign : List Char × List Char → Values n → Values n}
    {current : Values n} {rest : List Char} (i : Fin n) :
    parseLines assign (entryLine T values i ++ rest) current =
      parseLines assign rest (assign ((T.name i).chars, formatInt (values i).toInt) current) := by
  have hne {c d : Char} (hc : c ∈ entryText T values i) (hd : d = '\n' ∨ d = '\r' ∨ d = '\x00') :
      c ≠ d := ne_of_mem_entryText hc hd
  have hline : '\n' ∉ entryText T values i ++ ['\r'] := by
    intro h
    rcases mem_append.1 h with h | h
    · exact hne h (.inl rfl) rfl
    · simp at h
  have hsize : (entryText T values i ++ ['\r']).length < lineSize := by
    have := length_entryText_le T values i
    rw [length_append, lineSize, length_singleton]
    omega
  have hfilter : (entryText T values i ++ ['\r']).filter (· ≠ '\r') = entryText T values i := by
    rw [filter_append, filter_eq_self.2 fun c hc => by
      simpa using hne hc (.inr (.inl rfl))]
    simp
  have hbuffer : ofBuffer (entryText T values i) = entryText T values i :=
    takeWhile_eq_self_iff.2 fun c hc => by simpa using hne hc (.inr (.inr rfl))
  rw [entryLine_eq, append_assoc, singleton_append, parseLines_line hline hsize, hfilter,
    hbuffer, if_neg, configParseLine_entryText]
  rintro (hcomment | hnil)
  · exact (T.name i).ne_comment ((head?_entryText i).symm.trans hcomment)
  · exact (T.name i).ne_nil (append_eq_nil_iff.1 hnil).1

/-- The variables that are saved. -/
def savedIndices (T : ConfigTable n) (values : Values n) : List (Fin n) :=
  (List.finRange n).filter fun i => values i ≠ T.default i

theorem mem_savedIndices : i ∈ savedIndices T values ↔ values i ≠ T.default i := by
  simp [savedIndices]

/-- Their lines. -/
def entryLines (T : ConfigTable n) (values : Values n) : List (List Char) :=
  (savedIndices T values).map (entryLine T values)

/-- The variables are saved as far as there is room. -/
theorem foldl_saveEntry {msg : List Char} (hmsg : msg.length < maxSize - 1) :
    (finRange n).foldl (saveEntry T values) msg =
      (msg ++ (entryLines T values).flatten).take (maxSize - 2) := by
  have hfold (l : List (Fin n)) (msg : List Char) : l.foldl (saveEntry T values) msg =
      ((l.filter fun i => values i ≠ T.default i).map (entryLine T values)).foldl
        (fun msg line => appendLimited msg (maxSize - 1 - msg.length) line) msg := by
    induction l generalizing msg with
    | nil => rfl
    | cons i l ih =>
      rw [foldl_cons, ih, saveEntry, Nat.sub_right_comm]
      by_cases hi : values i = T.default i
      · simp [hi]
      · simp [hi]
  rw [hfold, foldl_appendLimited hmsg]
  rfl

/-- A value that is assigned is the value that was saved. -/
def Assigns (T : ConfigTable n) (assign : List Char × List Char → Values n → Values n) : Prop :=
  ∀ i (v : Int32) current,
    assign ((T.name i).chars, formatInt v.toInt) current = Function.update current i v

theorem ofInt_atoi_formatInt (v : Int32) : Int32.ofInt (atoi (formatInt v.toInt)) = v := by
  rw [atoi_formatInt, Int32.ofInt_toInt]

theorem assigns_configAutoParse : Assigns T (configAutoParse T) := by
  intro i v current
  have hfind : (finRange n).find? (fun j => (T.name j).chars = (T.name i).chars) = some i := by
    cases h : (finRange n).find? fun j => (T.name j).chars = (T.name i).chars with
    | none => simpa using find?_eq_none.1 h i (mem_finRange i)
    | some j => rw [T.name_inj j i (by simpa using find?_some h)]
  rw [configAutoParse]
  simp only [hfind, ofInt_atoi_formatInt]

theorem assigns_moduleAssign : Assigns T (moduleAssign T) := by
  intro i v current
  have hfold (l : List (Fin n)) (current : Values n) :
      l.foldl (fun values j => if (T.name j).chars = (T.name i).chars then
        Function.update values j (Int32.ofInt (atoi (formatInt v.toInt))) else values) current =
      if i ∈ l then Function.update current i v else current := by
    induction l generalizing current with
    | nil => rfl
    | cons j l ih =>
      rw [foldl_cons, ih, ofInt_atoi_formatInt]
      by_cases hj : j = i
      · simp [hj]
      · have hname : (T.name j).chars ≠ (T.name i).chars := fun h => hj (T.name_inj j i h)
        simp [hname, Ne.symm hj]
  exact (hfold _ current).trans (if_pos (mem_finRange i))

variable {assign : List Char × List Char → Values n → Values n}

/-- **Reading lines.** The lines of some variables are read: these get their saved values. -/
theorem parseLines_entryLines (hassign : Assigns T assign) (is : List (Fin n)) (current : Values n)
    (rest : List Char) :
    parseLines assign ((is.map (entryLine T values)).flatten ++ rest) current =
      parseLines assign rest fun j => if j ∈ is then values j else current j := by
  induction is generalizing current with
  | nil => simp
  | cons i is ih =>
    rw [map_cons, flatten_cons, append_assoc, parseLines_entryLine, hassign, ih]
    congr 1
    funext j
    rcases eq_or_ne j i with rfl | hj
    · simp
    · simp [hj]

theorem notMem_of_isPrefix {part : List Char} (hpre : part <+: entryLine T values i)
    (hne : part ≠ entryLine T values i) : '\n' ∉ part := by
  rw [entryLine_eq] at hpre hne
  rcases prefix_concat_iff.1 hpre with heq | hpre
  · exact absurd heq hne
  · intro hmem
    rcases mem_append.1 (hpre.subset hmem) with h | h
    · exact ne_of_mem_entryText h (.inl rfl) rfl
    · simp at h

theorem parseLines_take (hassign : Assigns T assign) {header : List Char}
    (hheader : header.length ≤ maxSize - 2)
    (hskip : ∀ rest current,
      parseLines assign (header ++ rest) current = parseLines assign rest current) :
    (∀ i, parseLines assign ((header ++ (entryLines T values).flatten).take (maxSize - 2))
        T.default i = values i ∨
      parseLines assign ((header ++ (entryLines T values).flatten).take (maxSize - 2)) T.default i =
        T.default i) ∧
    (parseLines assign ((header ++ (entryLines T values).flatten).take (maxSize - 2)) T.default =
        values ↔
      (header ++ (entryLines T values).flatten).length ≤ maxSize - 2) := by
  rw [take_append, take_of_length_le hheader, hskip, length_append]
  rcases exists_take_flatten (entryLines T values) (maxSize - 2 - header.length) with
    ⟨hlen, htake⟩ | ⟨done, line, rest, part, hlines, hpre, hne, htake⟩
  · have hread : parseLines assign (entryLines T values).flatten T.default = values := by
      rw [← append_nil (entryLines T values).flatten, entryLines,
        parseLines_entryLines hassign, parseLines_of_notMem not_mem_nil]
      funext j
      by_cases hj : values j = T.default j
      · simp [hj]
      · simp [mem_savedIndices, hj]
    rw [htake, hread]
    exact ⟨fun i => .inl rfl, iff_of_true rfl (by omega)⟩
  · obtain ⟨is, js, hsaved, rfl, hjs⟩ := map_eq_append_iff.1 hlines
    obtain ⟨i, js, rfl, rfl, rfl⟩ := map_eq_cons_iff.1 hjs
    have hread : parseLines assign ((is.map (entryLine T values)).flatten ++ part) T.default =
        fun j => if j ∈ is then values j else T.default j := by
      rw [parseLines_entryLines hassign, parseLines_of_notMem (notMem_of_isPrefix hpre hne)]
    rw [htake, hread]
    refine ⟨fun j => ?_, iff_of_false (fun heq => ?_) ?_⟩
    · by_cases hj : j ∈ is
      · exact .inl (if_pos hj)
      · exact .inr (if_neg hj)
    · have hi : i ∈ savedIndices T values := by simp [hsaved]
      have hnodup : (savedIndices T values).Nodup := (nodup_finRange n).filter _
      rw [hsaved, nodup_append] at hnodup
      have hnot : i ∉ is := fun hmem => hnodup.2.2 i hmem i mem_cons_self rfl
      exact mem_savedIndices.1 hi ((congrFun heq i).symm.trans (if_neg hnot))
    · intro hle
      have hlen : (entryLines T values).flatten.length ≤ maxSize - 2 - header.length := by omega
      rw [take_of_length_le hlen, hlines] at htake
      simp only [flatten_append, flatten_cons, append_cancel_left_eq] at htake
      have hshort := congrArg length htake
      rw [length_append] at hshort
      have := hpre.length_le
      exact hne (hpre.eq_of_length (by omega))

end Entries

/-! ### The headers -/

/-- The text of the whole file. -/
def configText {n : ℕ} (T : ConfigTable n) (values : Values n) (b : Build) (now : Calendar) :
    List Char :=
  buildText b ++ savedText now ++ (entryLines T values).flatten

/-- The text of the whole file of a module. -/
def moduleConfigText {n : ℕ} (T : ConfigTable n) (values : Values n) (m : ModuleEntry) :
    List Char :=
  moduleText m ++ (entryLines T values).flatten

section Headers

variable {n : ℕ} {assign : List Char × List Char → Values n → Values n} {ls : List (List Char)}

/-- Lines of comments. -/
def commentText (ls : List (List Char)) : List Char :=
  (ls.map fun l => '#' :: l ++ ['\n']).flatten

theorem parseLines_commentText (hls : ∀ l ∈ ls, '\n' ∉ l ∧ l.length + 1 < lineSize)
    (rest : List Char) (current : Values n) :
    parseLines assign (commentText ls ++ rest) current = parseLines assign rest current := by
  induction ls with
  | nil => rfl
  | cons l ls ih =>
    obtain ⟨⟨hline, hsize⟩, hls⟩ := forall_mem_cons.1 hls
    rw [← ih hls, commentText, map_cons, flatten_cons, append_assoc,
      append_assoc, singleton_append, parseLines_comment hline hsize]
    rfl

/-- The first line about the build, from the second character on. -/
def versionLine (b : Build) : List Char :=
  " Magic Lantern ".toList ++ b.version.chars ++ " (".toList ++ b.id.chars ++ ")".toList

/-- The second line about the build, from the second character on. -/
def builtLine (b : Build) : List Char :=
  " Built on ".toList ++ b.date.chars ++ " by ".toList ++ b.user.chars

/-- The line about the time, from the second character on. -/
def savedLine (now : Calendar) : List Char :=
  " Configuration saved on ".toList ++ formatPadded 4 (now.year + 1900).toInt ++ "/".toList ++
    formatPadded 2 (now.mon + 1).toInt ++ "/".toList ++ formatPadded 2 now.mday.toInt ++
    " ".toList ++ formatPadded 2 now.hour.toInt ++ ":".toList ++ formatPadded 2 now.min.toInt ++
    ":".toList ++ formatPadded 2 now.sec.toInt

/-- The line about a module, from the second character on. -/
def moduleLine (m : ModuleEntry) : List Char :=
  " Config file for module ".toList ++ m.name.chars ++ " (".toList ++ m.filename.chars ++
    ")".toList

theorem header_eq (b : Build) (now : Calendar) :
    buildText b ++ savedText now = commentText [versionLine b, builtLine b, savedLine now] := by
  unfold buildText savedText commentText versionLine builtLine savedLine
  simp

theorem moduleText_eq (m : ModuleEntry) : moduleText m = commentText [moduleLine m] ++ ['\n'] := by
  unfold moduleText commentText moduleLine
  simp

theorem versionLine_spec (b : Build) : '\n' ∉ versionLine b ∧ (versionLine b).length ≤ 600 := by
  have hversion := b.version.length_le
  have hid := b.id.length_le
  unfold versionLine
  refine ⟨by simp [b.version.oneLine, b.id.oneLine], ?_⟩
  simp
  omega

theorem builtLine_spec (b : Build) : '\n' ∉ builtLine b ∧ (builtLine b).length ≤ 600 := by
  have hdate := b.date.length_le
  have huser := b.user.length_le
  unfold builtLine
  refine ⟨by simp [b.date.oneLine, b.user.oneLine], ?_⟩
  simp
  omega

theorem moduleLine_spec (m : ModuleEntry) : '\n' ∉ moduleLine m ∧ (moduleLine m).length ≤ 600 := by
  have hname := m.name.length_le
  have hfile := m.filename.length_le
  unfold moduleLine
  refine ⟨by simp [m.name.oneLine, m.filename.oneLine], ?_⟩
  simp
  omega

theorem notMem_formatPadded (w : ℕ) (v : Int32) : '\n' ∉ formatPadded w v.toInt := by
  intro h
  rcases mem_formatPadded h with h | h <;> exact absurd h (by decide)

theorem length_formatPadded (w : ℕ) (v : Int32) : (formatPadded w v.toInt).length ≤ w + 11 :=
  length_formatPadded_le v.le_toInt v.toInt_lt

theorem savedLine_spec (now : Calendar) : '\n' ∉ savedLine now ∧ (savedLine now).length ≤ 600 := by
  have hyear := length_formatPadded 4 (now.year + 1900)
  have hmon := length_formatPadded 2 (now.mon + 1)
  have hday := length_formatPadded 2 now.mday
  have hhour := length_formatPadded 2 now.hour
  have hmin := length_formatPadded 2 now.min
  have hsec := length_formatPadded 2 now.sec
  unfold savedLine
  refine ⟨by simp [notMem_formatPadded, -Int32.toInt_add], ?_⟩
  simp [-Int32.toInt_add]
  omega

theorem length_commentText_le (hls : ∀ l ∈ ls, l.length ≤ 600) :
    (commentText ls).length ≤ 602 * ls.length := by
  induction ls with
  | nil => simp [commentText]
  | cons l ls ih =>
    obtain ⟨hl, hls⟩ := forall_mem_cons.1 hls
    have hrest := ih hls
    simp only [commentText, map_cons, flatten_cons, length_append, length_cons,
      length_nil] at hrest ⊢
    omega

theorem headerLines_spec (b : Build) (now : Calendar) :
    ∀ l ∈ [versionLine b, builtLine b, savedLine now], '\n' ∉ l ∧ l.length ≤ 600 := by
  simp only [forall_mem_cons]
  exact ⟨versionLine_spec b, builtLine_spec b, savedLine_spec now, forall_mem_nil _⟩

theorem length_header_le (b : Build) (now : Calendar) :
    (buildText b).length + (savedText now).length ≤ 1806 := by
  rw [← length_append, header_eq]
  exact length_commentText_le fun l hl => (headerLines_spec b now l hl).2

theorem length_moduleText_le (m : ModuleEntry) : (moduleText m).length ≤ 603 := by
  rw [moduleText_eq, length_append]
  have hline : ∀ l ∈ [moduleLine m], l.length ≤ 600 := by
    simpa using (moduleLine_spec m).2
  exact Nat.add_le_add_right (length_commentText_le hline) 1

end Headers

/-! ### Saving and reading -/

section RoundTrip

variable {n : ℕ} (T : ConfigTable n) (values : Values n)

theorem configSaveFile_eq (b : Build) (now : Calendar) :
    configSaveFile T values b now = (configText T values b now).take (maxSize - 2) := by
  have hlen := length_header_le b now
  have hbuild : appendLimited [] maxSize (buildText b) = buildText b :=
    appendLimited_of_lt (by rw [maxSize]; omega)
  have hsaved : appendLimited (buildText b) (maxSize - (buildText b).length) (savedText now) =
      buildText b ++ savedText now :=
    appendLimited_of_lt (by rw [maxSize]; omega)
  rw [configSaveFile, hbuild]
  simp only [hsaved]
  rw [foldl_saveEntry (by rw [length_append, maxSize]; omega), configText]

/-- What is read from the file of the program. -/
theorem configParse_configSaveFile (b : Build) (now : Calendar) :
    (∀ i, configParse T (configSaveFile T values b now) T.default i = values i ∨
      configParse T (configSaveFile T values b now) T.default i = T.default i) ∧
    (configParse T (configSaveFile T values b now) T.default = values ↔
      (configText T values b now).length ≤ maxSize - 2) := by
  have hlen := length_header_le b now
  rw [configSaveFile_eq, configParse]
  refine parseLines_take assigns_configAutoParse ?_ fun rest current => ?_
  · rw [length_append, maxSize]
    omega
  · rw [header_eq]
    refine parseLines_commentText (fun l hl => ?_) rest current
    obtain ⟨hline, hle⟩ := headerLines_spec b now l hl
    exact ⟨hline, by rw [lineSize]; omega⟩

/-- What is read from the file of a module. -/
theorem moduleConfigLoad_moduleConfigSave (m : ModuleEntry) :
    (∀ i, moduleConfigLoad T (moduleConfigSave T values m) T.default i = values i ∨
      moduleConfigLoad T (moduleConfigSave T values m) T.default i = T.default i) ∧
    (moduleConfigLoad T (moduleConfigSave T values m) T.default = values ↔
      (moduleConfigText T values m).length ≤ maxSize - 2) := by
  have hlen := length_moduleText_le m
  by_cases hdefault : ∀ i, values i = T.default i
  · have hnone : moduleConfigSave T values m = none := if_pos hdefault
    have hlines : entryLines T values = [] := by
      simp [entryLines, savedIndices, hdefault]
    rw [hnone, moduleConfigText, hlines]
    refine ⟨fun i => .inr rfl, iff_of_true (funext fun i => (hdefault i).symm) ?_⟩
    rw [flatten_nil, append_nil, maxSize]
    omega
  · have hsome : moduleConfigSave T values m =
        some ((moduleConfigText T values m).take (maxSize - 2)) := by
      rw [moduleConfigSave, appendLimited_of_lt (by rw [maxSize]; omega), nil_append,
        foldl_saveEntry (by rw [maxSize]; omega), if_neg hdefault]
      rfl
    rw [hsome, moduleConfigLoad]
    refine parseLines_take assigns_moduleAssign ?_ fun rest current => ?_
    · rw [maxSize]
      omega
    · obtain ⟨hline, hle⟩ := moduleLine_spec m
      rw [moduleText_eq, append_assoc, parseLines_commentText, singleton_append,
        parseLines_empty]
      simpa [lineSize] using ⟨hline, by omega⟩

/-- **Saving and reading.** After a file has been read, each variable has its saved value or its
default value; all have their saved values exactly if the text has at most 10238 characters. -/
theorem config_roundTrip_iff (b : Build) (now : Calendar) (m : ModuleEntry) :
    ((∀ i, configParse T (configSaveFile T values b now) T.default i = values i ∨
        configParse T (configSaveFile T values b now) T.default i = T.default i) ∧
      (configParse T (configSaveFile T values b now) T.default = values ↔
        (configText T values b now).length + 2 ≤ maxSize)) ∧
    ((∀ i, moduleConfigLoad T (moduleConfigSave T values m) T.default i = values i ∨
        moduleConfigLoad T (moduleConfigSave T values m) T.default i = T.default i) ∧
      (moduleConfigLoad T (moduleConfigSave T values m) T.default = values ↔
        (moduleConfigText T values m).length + 2 ≤ maxSize)) := by
  have hfits (k : ℕ) : k ≤ maxSize - 2 ↔ k + 2 ≤ maxSize := Nat.le_sub_iff_add_le (by decide)
  rw [← hfits, ← hfits]
  exact ⟨configParse_configSaveFile T values b now, moduleConfigLoad_moduleConfigSave T values m⟩

end RoundTrip

/-! ### A text that fits the buffer -/

/-- The name of a variable: three digits and sixty letters. -/
def longName (i : Fin 147) : ConfigName where
  chars := Nat.toDigits 10 (100 + i) ++ List.replicate 60 'v'
  ne_nil := List.append_ne_nil_of_right_ne_nil _ (List.cons_ne_nil _ _)
  length_le := by
    have : (Nat.toDigits 10 (100 + i)).length ≤ 3 :=
      (Nat.length_toDigits_le_iff (by decide) (by decide)).2 (by omega)
    rw [List.length_append, List.length_replicate]
    omega
  ne_comment := by
    revert i
    decide +kernel
  valid c hc := by
    rcases List.mem_append.1 hc with h | h
    · have hd := isDigit_of_mem_toDigits h
      exact ⟨isspace_eq_false (not_isspace_of_isDigit hd), ne_of_isDigit hd rfl,
        ne_of_isDigit hd rfl⟩
    · rw [List.eq_of_mem_replicate h]
      decide

/-- A table with such names. -/
def longTable : ConfigTable 147 where
  name := longName
  name_inj i j h := by
    have hdigits := congrArg digits (List.append_cancel_right h)
    rw [digits_toDigits, digits_toDigits] at hdigits
    omega
  default := fun _ => 0

/-- A build whose user has a name of fifteen letters. -/
def shortBuild : Build where
  version := ⟨[], by simp, by simp⟩
  id := ⟨[], by simp, by simp⟩
  date := ⟨[], by simp, by simp⟩
  user := ⟨List.replicate 15 'x', by simp, by simp⟩

/-- 147 variables with long names have the value 1. The text has 10239 characters, so that the
buffer has room for it, but the last variable is not read. -/
theorem config_lastLine_lost :
    (configText longTable (fun _ => 1) shortBuild ⟨126, 0, 1, 0, 0, 0⟩).length + 1 = maxSize ∧
      configParse longTable (configSaveFile longTable (fun _ => 1) shortBuild ⟨126, 0, 1, 0, 0, 0⟩)
        longTable.default ≠ fun _ => 1 := by
  have hheader : (buildText shortBuild ++ savedText ⟨126, 0, 1, 0, 0, 0⟩).length = 96 := by
    decide +kernel
  have hline (i : Fin 147) : (length ∘ entryLine longTable fun _ => 1) i = 69 := by
    have hname : (Nat.toDigits 10 (100 + i)).length = 3 := by
      revert i
      decide
    have hchars : (longTable.name i).chars = Nat.toDigits 10 (100 + i) ++ replicate 60 'v' := rfl
    have hvalue : (formatInt (1 : Int32).toInt).length = 1 := rfl
    rw [Function.comp_apply, entryLine_eq, length_append, length_append, entryText, hchars,
      length_append,
      length_append, length_replicate, hname, length_cons, length_cons, length_cons, hvalue]
    rfl
  have hlen : (configText longTable (fun _ => 1) shortBuild ⟨126, 0, 1, 0, 0, 0⟩).length =
      10239 := by
    have hsaved : savedIndices longTable (fun _ => 1) = finRange 147 := by
      simp [savedIndices, longTable]
    rw [configText, length_append, hheader, entryLines, hsaved, length_flatten, map_map,
      funext hline]
    simp
  refine ⟨congrArg (· + 1) hlen, fun hread => ?_⟩
  have hfits := (configParse_configSaveFile longTable _ _ _).2.1 hread
  rw [hlen] at hfits
  exact absurd hfits (by decide)

end MagicLantern.Config
