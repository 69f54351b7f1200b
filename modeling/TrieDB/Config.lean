import TrieDB.IntegerUpdate

/-!
`config.c`: the defaults of `config_set_default`, the file `config_load` reads
line by line with `fgets`, `add_config_value`, and the human-readable sizes and
durations of `memory_to_string` and `time_to_string`. `add_config_value`
compares with `STREQ` over the key's length, so a key selects the first setting
whose name it is a prefix of, up to case. `SOMAXCONN` is a parameter, as the
system defines it. The `eventfd` of `run`, `epoll_timeout` and the log
messages are left out.
-/
namespace TrieDB

def asciiBytes (s : String) : List UInt8 := s.toList.map fun c => c.toNat.toUInt8

/-- `isspace` in the C locale: space, and tab to carriage return. -/
def isSpace (c : UInt8) : Bool := c == 32 || (9 ≤ c && c ≤ 13)

/-- The log levels of `util.h`. -/
def DEBUG : UInt8 := 0
def INFORMATION : UInt8 := 1
def WARNING : UInt8 := 2
def ERROR : UInt8 := 3

/-- The socket families of `network.h`. -/
def UNIX : Int32 := 0
def INET : Int32 := 1

/-- The run modes of `config.h`. -/
def STANDALONE : Int32 := 0
def CLUSTER : Int32 := 1

/-- `lmap`, the names of the log levels. -/
def lmap : List (String × UInt8) :=
  [("DEBUG", DEBUG), ("WARNING", WARNING), ("ERROR", ERROR), ("INFO", INFORMATION),
    ("INFORMATION", INFORMATION)]

/-- The number in front of a size or a duration, as `size_t num = parse_int(s)`. -/
def leadingNumber (s : CStr) : UInt64 := (parseInt s).toInt64.toUInt64

/-- The multiplier of `read_memory_with_mul` for what follows the digits:
`kb`, `mb` or `gb` up to case, and bytes otherwise. -/
def memoryMul (unit : List UInt8) : Int32 :=
  if strncaseEq unit (asciiBytes "kb") 2 then 1024
  else if strncaseEq unit (asciiBytes "mb") 2 then 1024 * 1024
  else if strncaseEq unit (asciiBytes "gb") 2 then 1024 * 1024 * 1024
  else 1

/-- `read_memory_with_mul`. -/
def readMemoryWithMul (memoryString : CStr) : UInt64 :=
  leadingNumber memoryString * (memoryMul (memoryString.bytes.dropWhile isDigit)).toInt64.toUInt64

/-- The multiplier of `read_time_with_mul`, from the first byte after the
digits: minutes for an `m`, days for a `d`, and seconds otherwise. -/
def timeMul (unit : List UInt8) : Int32 :=
  match unit.head? with
  | some 109 => 60
  | some 100 => 60 * 60 * 24
  | _ => 1

/-- `read_time_with_mul`. -/
def readTimeWithMul (timeString : CStr) : UInt64 :=
  leadingNumber timeString * (timeMul (timeString.bytes.dropWhile isDigit)).toInt64.toUInt64

/-- `snprintf(str, size, "%d" suffix, n)`: what fits in `size` bytes with the
NUL. -/
def snprintfInt (size : Nat) (n : Int32) (suffix : List UInt8) : CStr :=
  CStr.ofBytes (((formatInt n).bytes ++ suffix).take (size - 1))

/-- One branch of `memory_to_string` and `time_to_string`: `value / unit` as an
`int`, written with its unit into `number_len(translated) + extra` bytes. -/
def humanString (value unit : UInt64) (suffix : String) (extra : Nat) : CStr :=
  let translated : Int32 := Int32.ofNat (value / unit).toNat
  snprintfInt (numberLen translated.toInt64.toUInt64 + extra) translated (asciiBytes suffix)

/-- `memory_to_string`. -/
def memoryToString (memory : UInt64) : CStr :=
  if memory < 1024 then humanString memory 1 "b" 1
  else if memory < 1048576 then humanString memory 1024 "Kb" 2
  else if memory < 1073741824 then humanString memory (1024 * 1024) "Mb" 2
  else humanString memory (1024 * 1024 * 1024) "Gb" 2

/-- `time_to_string`. -/
def timeToString (time : UInt64) : CStr :=
  if time < 60 then humanString time 1 "s" 1
  else if time < 60 * 60 then humanString time 60 "m" 1
  else if time < 60 * 60 * 24 then humanString time (60 * 60) "h" 1
  else humanString time (60 * 60 * 24) "d" 1

/-- The literals of `config.h`. -/
def VERSION : CStr := ⟨asciiBytes "0.6.11", by decide⟩
def DEFAULT_LOG_PATH : CStr := ⟨asciiBytes "/tmp/triedb.log", by decide⟩
def DEFAULT_HOSTNAME : CStr := ⟨asciiBytes "127.0.0.1", by decide⟩
def DEFAULT_PORT : CStr := ⟨asciiBytes "9090", by decide⟩
def DEFAULT_MAX_MEMORY : CStr := ⟨asciiBytes "4GB", by decide⟩
def DEFAULT_MEM_RECLAIM_TIME : CStr := ⟨asciiBytes "1d", by decide⟩
def DEFAULT_MAX_REQUEST_SIZE : CStr := ⟨asciiBytes "2MB", by decide⟩

/-- `config_set_default`. -/
def configSetDefault (somaxconn : Int32) : Config where
  version := VERSION
  mode := STANDALONE
  loglevel := INFORMATION
  socketFamily := INET
  logpath := DEFAULT_LOG_PATH
  hostname := DEFAULT_HOSTNAME
  port := DEFAULT_PORT
  maxMemory := readMemoryWithMul DEFAULT_MAX_MEMORY
  memReclaimTime := readTimeWithMul DEFAULT_MEM_RECLAIM_TIME
  maxRequestSize := readMemoryWithMul DEFAULT_MAX_REQUEST_SIZE
  tcpBacklog := somaxconn

/-- One round of the log level loop: `STREQ(lmap[i].lname, value, vlen)`. -/
def setLevel (value : CStr) (config : Config) (level : String × UInt8) : Config :=
  if strncaseEq (asciiBytes level.1) value.bytes value.length then { config with loglevel := level.2 }
  else config

/-- The log level loop of `add_config_value`: it runs over the first three
entries of `lmap` and keeps the last that matches. -/
def setLogLevel (config : Config) (value : CStr) : Config :=
  (lmap.take 3).foldl (setLevel value) config

/-- `STREQ(name, key, klen)` of `add_config_value`: the key is the name or a
prefix of it, up to case. -/
def namesKey (name : String) (key : CStr) : Bool := strncaseEq (asciiBytes name) key.bytes key.length

/-- `add_config_value`. -/
def addConfigValue (somaxconn : Int32) (config : Config) (key value : CStr) : Config :=
  if namesKey "log_level" key then setLogLevel config value
  else if namesKey "log_path" key then { config with logpath := value }
  else if namesKey "unix_socket" key then { config with socketFamily := UNIX, hostname := value }
  else if namesKey "ip_address" key then { config with socketFamily := INET, hostname := value }
  else if namesKey "ip_port" key then { config with port := value }
  else if namesKey "max_memory" key then { config with maxMemory := readMemoryWithMul value }
  else if namesKey "mem_reclaim_time" key then { config with memReclaimTime := readTimeWithMul value }
  else if namesKey "max_request_size" key then { config with maxRequestSize := readMemoryWithMul value }
  else if namesKey "tcp_backlog" key then
    let tcpBacklog := parseInt value
    { config with tcpBacklog := if tcpBacklog ≤ somaxconn then tcpBacklog else somaxconn }
  else if namesKey "mode" key then
    -- `STREQ(value, "STANDALONE", 10) ? STANDALONE : CLUSTER` expands to
    -- `strncasecmp(..) == 0 ? true : false ? STANDALONE : CLUSTER`, and the
    -- second `?:` binds to the `false`
    { config with mode := if strncaseEq value.bytes (asciiBytes "STANDALONE") 10 then 1
                          else if false then STANDALONE else CLUSTER }
  else config

theorem modeBranch_eq_cluster (value : CStr) :
    (if strncaseEq value.bytes (asciiBytes "STANDALONE") 10 then (1 : Int32)
      else if false then STANDALONE else CLUSTER) = CLUSTER := by
  split <;> rfl

example : (addConfigValue 4096 (configSetDefault 4096) ⟨asciiBytes "mode", by decide⟩
    ⟨asciiBytes "STANDALONE", by decide⟩).mode = CLUSTER := by decide

/-- The read of `fgets`: at most `room` bytes, up to and with the first newline. -/
def fgetsRead : Nat → List UInt8 → List UInt8 × List UInt8
  | 0, file => ([], file)
  | _ + 1, [] => ([], [])
  | room + 1, c :: file =>
    if c = 10 then ([c], file)
    else
      let (line, rest) := fgetsRead room file
      (c :: line, rest)

/-- `fgets(line, size, fh)` on what is left of the file: `none` at its end. -/
def fgets (size : Nat) (file : List UInt8) : Option (List UInt8 × List UInt8) :=
  if file = [] then none else some (fgetsRead (size - 1) file)

/-- What `config_load` makes of a line. -/
inductive ConfigLine where
  /-- A comment, with `#` in the first column, or a line of spaces. -/
  | skipped
  /-- The warning for a key with no value after it. -/
  | incomplete (key : CStr)
  | entry (key value : CStr)
  deriving DecidableEq

/-- The body of the loop of `config_load`, from the buffer `line` that `fgets`
filled. -/
def parseConfigLine (line : List UInt8) : ConfigLine :=
  let text := line.takeWhile (· ≠ 0)
  if text.head? = some 35 then .skipped
  else
    let pline := text.dropWhile isSpace
    if pline = [] then .skipped
    else
      let key := pline.takeWhile (fun c => !isSpace c)
      let pline := (pline.dropWhile (fun c => !isSpace c)).dropWhile isSpace
      -- the test reads `line[0]`, not what is left of the line
      if line.headD 0 = 0 then .incomplete (CStr.ofBytes key)
      else .entry (CStr.ofBytes key) (CStr.ofBytes (pline.takeWhile (fun c => !isSpace c)))

def configLoadLine (somaxconn : Int32) (config : Config) (line : List UInt8) : Config :=
  match parseConfigLine line with
  | .entry key value => addConfigValue somaxconn config key value
  | _ => config

/-- The loop of `config_load` over what is left of the file. Each round reads
at least one byte, so the length of the file is enough fuel. -/
def configLoadLoop (somaxconn : Int32) : Nat → List UInt8 → Config → Config
  | 0, _, config => config
  | fuel + 1, file, config =>
    match fgets 0xff file with
    | none => config
    | some (line, rest) => configLoadLoop somaxconn fuel rest (configLoadLine somaxconn config line)

/-- `config_load`: `false`, with nothing read, when the file does not open. -/
def configLoad (somaxconn : Int32) (file : Option (List UInt8)) (config : Config) : Bool × Config :=
  match file with
  | none => (false, config)
  | some file => (true, configLoadLoop somaxconn file.length file config)

section Lines

theorem parseConfigLine_ne_incomplete (line : List UInt8) (key : CStr) :
    parseConfigLine line ≠ .incomplete key := by
  unfold parseConfigLine
  dsimp only
  split_ifs with comment blank first
  · nofun
  · nofun
  · exfalso
    apply blank
    cases line with
    | nil => rfl
    | cons c rest =>
      simp only [List.headD_cons] at first
      simp [first]
  · nofun

/-- A key as `config_load` reads it: not empty, not a comment, and a word. -/
structure KeyWord (key : CStr) : Prop where
  ne_nil : key.bytes ≠ []
  not_comment : key.bytes.head? ≠ some 35
  word : ∀ c ∈ key.bytes, isSpace c = false

theorem keyWord_iff (key : CStr) :
    KeyWord key ↔ key.bytes ≠ [] ∧ key.bytes.head? ≠ some 35 ∧ key.bytes.all (fun c => !isSpace c) = true := by
  simp only [List.all_eq_true, Bool.not_eq_eq_eq_not, Bool.not_true]
  exact ⟨fun word => ⟨word.ne_nil, word.not_comment, word.word⟩, fun word => ⟨word.1, word.2.1, word.2.2⟩⟩

instance (key : CStr) : Decidable (KeyWord key) := decidable_of_iff _ (keyWord_iff key).symm

theorem takeWhile_of_head {α : Type} {p : α → Bool} {rest : List α} (stop : rest.head?.all (fun c => !p c)) :
    rest.takeWhile p = [] := by
  cases rest with
  | nil => rfl
  | cons c rest => simp_all

theorem dropWhile_of_head {α : Type} {p : α → Bool} {rest : List α} (stop : rest.head?.all (fun c => !p c)) :
    rest.dropWhile p = rest := by
  cases rest with
  | nil => rfl
  | cons c rest => simp_all

theorem parseConfigLine_of_key {key : CStr} (keyWord : KeyWord key) {rest : List UInt8}
    (nul_free : 0 ∉ rest) (apart : rest.head?.all isSpace) :
    parseConfigLine (key.bytes ++ rest) =
      .entry key (CStr.ofBytes ((rest.dropWhile isSpace).takeWhile fun c => !isSpace c)) := by
  obtain ⟨c, cs, bytes⟩ := List.exists_cons_of_ne_nil keyWord.ne_nil
  have first : c ∉ [0, 35] ∧ isSpace c = false := by
    have mem : c ∈ key.bytes := by simp [bytes]
    have not_comment := keyWord.not_comment
    rw [bytes, List.head?_cons, ne_eq, Option.some.injEq] at not_comment
    refine ⟨?_, keyWord.word c mem⟩
    simp only [List.mem_cons, List.not_mem_nil, or_false, not_or]
    exact ⟨fun zero => key.nul_free (zero ▸ mem), not_comment⟩
  have text : (key.bytes ++ rest).takeWhile (· ≠ 0) = key.bytes ++ rest := by
    refine List.takeWhile_eq_self_iff.mpr fun d mem => ?_
    rcases List.mem_append.mp mem with mem | mem
    · exact decide_eq_true fun zero => key.nul_free (zero ▸ mem)
    · exact decide_eq_true fun zero => nul_free (zero ▸ mem)
  have word : ∀ d ∈ key.bytes, (!isSpace d) = true := fun d mem => by simp [keyWord.word d mem]
  simp only [List.mem_cons, List.not_mem_nil, or_false, not_or] at first
  have head : (key.bytes ++ rest).head? = some c := by simp [bytes]
  have start : (key.bytes ++ rest).dropWhile isSpace = key.bytes ++ rest := by
    rw [bytes, List.cons_append, List.dropWhile_cons_of_neg (by simp [first.2])]
  have lead : (key.bytes ++ rest).headD 0 = c := by simp [bytes]
  have stop : rest.head?.all (fun c => !!isSpace c) := by simpa using apart
  unfold parseConfigLine
  dsimp only
  rw [text, head, start, lead, if_neg (by simpa using first.1.2), if_neg (by simp [bytes]), if_neg first.1.1,
    List.takeWhile_append_of_pos word, List.dropWhile_append_of_pos word, takeWhile_of_head stop,
    dropWhile_of_head stop, List.append_nil, CStr.ofBytes_bytes]

theorem configLoadLine_key_only {key : CStr} (keyWord : KeyWord key) {spaces : List UInt8}
    (blank : ∀ c ∈ spaces, isSpace c = true) (somaxconn : Int32) (config : Config) :
    configLoadLine somaxconn config (key.bytes ++ spaces) = addConfigValue somaxconn config key CStr.empty := by
  have nul_free : 0 ∉ spaces := fun mem => by simpa [isSpace] using blank 0 mem
  have apart : spaces.head?.all isSpace := by
    cases spaces with
    | nil => rfl
    | cons c rest => simpa using blank c (List.mem_cons_self ..)
  have gone : spaces.dropWhile isSpace = [] := List.dropWhile_eq_nil_iff.mpr blank
  rw [configLoadLine, parseConfigLine_of_key keyWord nul_free apart, gone]
  rfl

/-- `config_load` never takes its incomplete-configuration branch, so a key
with nothing but spaces after it is not skipped: `add_config_value` gets it
with the empty value. -/
theorem configLoadLine_key_without_value :
    (∀ (line : List UInt8) (key : CStr), parseConfigLine line ≠ .incomplete key) ∧
      ∀ (key : CStr), KeyWord key → ∀ (spaces : List UInt8), (∀ c ∈ spaces, isSpace c = true) →
        ∀ (somaxconn : Int32) (config : Config),
          configLoadLine somaxconn config (key.bytes ++ spaces) = addConfigValue somaxconn config key CStr.empty :=
  ⟨parseConfigLine_ne_incomplete, fun _ keyWord _ blank => configLoadLine_key_only keyWord blank⟩

theorem configLoadLine_key_without_value_port :
    KeyWord ⟨asciiBytes "ip_port", by decide⟩ ∧ (∀ c ∈ [(32 : UInt8)], isSpace c = true) ∧
      configLoadLine 4096 (configSetDefault 4096) (asciiBytes "ip_port" ++ [32]) =
        addConfigValue 4096 (configSetDefault 4096) ⟨asciiBytes "ip_port", by decide⟩ CStr.empty :=
  ⟨by decide, List.forall_mem_singleton.mpr rfl,
    configLoadLine_key_without_value.2 ⟨asciiBytes "ip_port", by decide⟩ (by decide) [32]
      (List.forall_mem_singleton.mpr rfl) 4096 _⟩

end Lines

section Render

def configFileLine (entry : CStr × CStr) : List UInt8 := entry.1.bytes ++ 32 :: entry.2.bytes ++ [10]

def renderConfig (entries : List (CStr × CStr)) : List UInt8 := entries.flatMap configFileLine

/-- A setting `config_load` reads back from its line: the key a word, the value
a word, and the line within the 254 bytes `fgets` reads. -/
structure ConfigEntryWF (entry : CStr × CStr) : Prop where
  key : KeyWord entry.1
  value : ∀ c ∈ entry.2.bytes, isSpace c = false
  fits : entry.1.length + entry.2.length + 2 ≤ 254

theorem configEntryWF_iff (entry : CStr × CStr) :
    ConfigEntryWF entry ↔ KeyWord entry.1 ∧ entry.2.bytes.all (fun c => !isSpace c) = true ∧
      entry.1.length + entry.2.length + 2 ≤ 254 := by
  simp only [List.all_eq_true, Bool.not_eq_eq_eq_not, Bool.not_true]
  exact ⟨fun wf => ⟨wf.key, wf.value, wf.fits⟩, fun wf => ⟨wf.1, wf.2.1, wf.2.2⟩⟩

instance (entry : CStr × CStr) : Decidable (ConfigEntryWF entry) :=
  decidable_of_iff _ (configEntryWF_iff entry).symm

theorem fgetsRead_of_line : ∀ {room : Nat} (body rest : List UInt8), (∀ c ∈ body, c ≠ 10) →
    body.length < room → fgetsRead room (body ++ 10 :: rest) = (body ++ [10], rest)
  | 0, _, _, _, fits => absurd fits (Nat.not_lt_zero _)
  | _ + 1, [], rest, _, _ => by simp [fgetsRead]
  | room + 1, c :: body, rest, noNewline, fits => by
    have ne : c ≠ 10 := noNewline c (List.mem_cons_self ..)
    have inside : body.length < room := by
      simp only [List.length_cons] at fits
      omega
    simp [fgetsRead, ne, fgetsRead_of_line body rest (fun d mem => noNewline d (List.mem_cons_of_mem c mem)) inside]

theorem value_of_configFileLine {value : CStr} (word : ∀ c ∈ value.bytes, isSpace c = false) :
    CStr.ofBytes (((32 :: (value.bytes ++ [10])).dropWhile isSpace).takeWhile fun c => !isSpace c) = value := by
  have kept : ∀ d ∈ value.bytes, (!isSpace d) = true := fun d mem => by simp [word d mem]
  rw [List.dropWhile_cons_of_pos (by decide)]
  cases bytes : value.bytes with
  | nil =>
    have empty : value = CStr.empty := by
      cases value
      simp_all [CStr.empty]
    simp [empty, isSpace, CStr.ofBytes, CStr.empty]
  | cons d ds =>
    have first : isSpace d = false := word d (by simp [bytes])
    have start : (value.bytes ++ [10]).dropWhile isSpace = value.bytes ++ [10] := by
      rw [bytes, List.cons_append, List.dropWhile_cons_of_neg (by simp [first])]
    rw [← bytes, start, List.takeWhile_append_of_pos kept, List.takeWhile_cons_of_neg (by decide),
      List.append_nil, CStr.ofBytes_bytes]

theorem configLoadLine_configFileLine {entry : CStr × CStr} (wf : ConfigEntryWF entry) (somaxconn : Int32)
    (config : Config) :
    configLoadLine somaxconn config (configFileLine entry) = addConfigValue somaxconn config entry.1 entry.2 := by
  have nul_free : 0 ∉ 32 :: (entry.2.bytes ++ [10]) := by
    simpa using entry.2.nul_free
  rw [configLoadLine, configFileLine, List.append_assoc, List.cons_append,
    parseConfigLine_of_key wf.key nul_free (by simp [isSpace]), value_of_configFileLine wf.value]

theorem fgets_configFileLine {entry : CStr × CStr} (wf : ConfigEntryWF entry) (rest : List UInt8) :
    fgets 0xff (configFileLine entry ++ rest) = some (configFileLine entry, rest) := by
  have noNewline : ∀ c ∈ entry.1.bytes ++ 32 :: entry.2.bytes, c ≠ 10 := by
    intro c mem
    rcases List.mem_append.mp mem with mem | mem
    · exact fun newline => by simpa [newline, isSpace] using wf.key.word c mem
    · rcases List.mem_cons.mp mem with rfl | mem
      · decide
      · exact fun newline => by simpa [newline, isSpace] using wf.value c mem
  have fits : (entry.1.bytes ++ 32 :: entry.2.bytes).length < 0xff - 1 := by
    have := wf.fits
    simp only [CStr.length] at this
    simp only [List.length_append, List.length_cons]
    omega
  have line : configFileLine entry ++ rest = (entry.1.bytes ++ 32 :: entry.2.bytes) ++ 10 :: rest := by
    simp [configFileLine]
  rw [fgets, if_neg (by simp [line]), line, fgetsRead_of_line _ rest noNewline fits]
  simp [configFileLine]

theorem configLoadLoop_renderConfig (somaxconn : Int32) :
    ∀ (entries : List (CStr × CStr)) {fuel : Nat} (config : Config), (∀ e ∈ entries, ConfigEntryWF e) →
      (renderConfig entries).length ≤ fuel →
      configLoadLoop somaxconn fuel (renderConfig entries) config =
        entries.foldl (fun config entry => addConfigValue somaxconn config entry.1 entry.2) config
  | [], fuel, config, _, _ => by cases fuel <;> rfl
  | entry :: entries, 0, _, _, long => by simp [renderConfig, configFileLine] at long
  | entry :: entries, fuel + 1, config, wf, long => by
    have wf₁ := wf entry (List.mem_cons_self ..)
    have rest : renderConfig (entry :: entries) = configFileLine entry ++ renderConfig entries := by
      simp [renderConfig]
    have short : (renderConfig entries).length ≤ fuel := by
      rw [rest, List.length_append] at long
      have : 0 < (configFileLine entry).length := by simp [configFileLine]
      omega
    rw [rest, configLoadLoop, fgets_configFileLine wf₁]
    simp only [List.foldl_cons]
    rw [← configLoadLine_configFileLine wf₁]
    exact configLoadLoop_renderConfig somaxconn entries _ (fun e mem => wf e (List.mem_cons_of_mem _ mem)) short

/-- `config_load` reads back a file written one setting a line: it applies the
settings in the order of the file, so the last line for a setting wins. -/
theorem configLoad_renderConfig (somaxconn : Int32) (entries : List (CStr × CStr))
    (wf : ∀ e ∈ entries, ConfigEntryWF e) (config : Config) :
    configLoad somaxconn (some (renderConfig entries)) config =
      (true, entries.foldl (fun config entry => addConfigValue somaxconn config entry.1 entry.2) config) := by
  rw [configLoad, configLoadLoop_renderConfig somaxconn entries config wf le_rfl]

theorem configLoad_renderConfig_port_level :
    (∀ e ∈ [(⟨asciiBytes "ip_port", by decide⟩, ⟨asciiBytes "8080", by decide⟩),
        (⟨asciiBytes "log_level", by decide⟩, ⟨asciiBytes "debug", by decide⟩)], ConfigEntryWF e) ∧
      configLoad 4096 (some (renderConfig [(⟨asciiBytes "ip_port", by decide⟩, ⟨asciiBytes "8080", by decide⟩),
          (⟨asciiBytes "log_level", by decide⟩, ⟨asciiBytes "debug", by decide⟩)])) (configSetDefault 4096) =
        (true, [((⟨asciiBytes "ip_port", by decide⟩ : CStr), (⟨asciiBytes "8080", by decide⟩ : CStr)),
            (⟨asciiBytes "log_level", by decide⟩, ⟨asciiBytes "debug", by decide⟩)].foldl
          (fun config entry => addConfigValue 4096 config entry.1 entry.2) (configSetDefault 4096)) :=
  ⟨by decide +kernel, configLoad_renderConfig 4096 _ (by decide +kernel) _⟩

end Render

section Valid
variable {somaxconn : Int32} {config : Config}

/-- The fields `config_load` sets to one of a few values, and the backlog, which
it bounds by `SOMAXCONN`. -/
structure ConfigValid (somaxconn : Int32) (config : Config) : Prop where
  loglevel : config.loglevel = DEBUG ∨ config.loglevel = INFORMATION ∨ config.loglevel = WARNING ∨
    config.loglevel = ERROR
  socketFamily : config.socketFamily = UNIX ∨ config.socketFamily = INET
  mode : config.mode = STANDALONE ∨ config.mode = CLUSTER
  tcpBacklog : config.tcpBacklog ≤ somaxconn

theorem configValid_configSetDefault (somaxconn : Int32) : ConfigValid somaxconn (configSetDefault somaxconn) :=
  ⟨.inr (.inl rfl), .inr rfl, .inl rfl, Int32.le_refl somaxconn⟩

theorem foldl_setLevel (value : CStr) : ∀ (levels : List (String × UInt8)) (config : Config),
    ∃ level, levels.foldl (setLevel value) config = { config with loglevel := level } ∧
      (level = config.loglevel ∨ level ∈ levels.map Prod.snd)
  | [], config => ⟨config.loglevel, rfl, .inl rfl⟩
  | first :: levels, config => by
    obtain ⟨level, done, picked⟩ := foldl_setLevel value levels (setLevel value config first)
    refine ⟨level, ?_, ?_⟩
    · rw [List.foldl_cons, done]
      unfold setLevel
      split_ifs <;> rfl
    · unfold setLevel at picked
      split_ifs at picked
      · rcases picked with same | mem
        · exact .inr (by simp [same])
        · exact .inr (List.mem_cons_of_mem _ mem)
      · rcases picked with same | mem
        · exact .inl same
        · exact .inr (List.mem_cons_of_mem _ mem)

theorem ConfigValid.of_setLogLevel (valid : ConfigValid somaxconn config) (value : CStr) :
    ConfigValid somaxconn (setLogLevel config value) := by
  obtain ⟨level, done, picked⟩ := foldl_setLevel value (lmap.take 3) config
  rw [setLogLevel, done]
  refine ⟨?_, valid.socketFamily, valid.mode, valid.tcpBacklog⟩
  rcases picked with same | mem
  · exact same ▸ valid.loglevel
  · simp only [lmap, List.take_succ_cons, List.take_zero, List.map_cons, List.map_nil, List.mem_cons,
      List.not_mem_nil, or_false] at mem
    rcases mem with rfl | rfl | rfl
    · exact .inl rfl
    · exact .inr (.inr (.inl rfl))
    · exact .inr (.inr (.inr rfl))

theorem ConfigValid.of_addConfigValue (valid : ConfigValid somaxconn config) (key value : CStr) :
    ConfigValid somaxconn (addConfigValue somaxconn config key value) := by
  have kept := valid
  obtain ⟨loglevel, socketFamily, mode, tcpBacklog⟩ := valid
  unfold addConfigValue
  refine iteInduction (fun _ => kept.of_setLogLevel value) fun _ => ?_
  refine iteInduction (fun _ => ⟨loglevel, socketFamily, mode, tcpBacklog⟩) fun _ => ?_
  refine iteInduction (fun _ => ⟨loglevel, .inl rfl, mode, tcpBacklog⟩) fun _ => ?_
  refine iteInduction (fun _ => ⟨loglevel, .inr rfl, mode, tcpBacklog⟩) fun _ => ?_
  refine iteInduction (fun _ => ⟨loglevel, socketFamily, mode, tcpBacklog⟩) fun _ => ?_
  refine iteInduction (fun _ => ⟨loglevel, socketFamily, mode, tcpBacklog⟩) fun _ => ?_
  refine iteInduction (fun _ => ⟨loglevel, socketFamily, mode, tcpBacklog⟩) fun _ => ?_
  refine iteInduction (fun _ => ⟨loglevel, socketFamily, mode, tcpBacklog⟩) fun _ => ?_
  refine iteInduction (fun _ => ⟨loglevel, socketFamily, mode, ?_⟩) fun _ => ?_
  · -- `tcp_backlog <= SOMAXCONN ? tcp_backlog : SOMAXCONN`
    show (if parseInt value ≤ somaxconn then parseInt value else somaxconn) ≤ somaxconn
    split
    · assumption
    · exact Int32.le_refl somaxconn
  refine iteInduction (fun _ => ⟨loglevel, socketFamily, .inr (modeBranch_eq_cluster value), tcpBacklog⟩)
    fun _ => ⟨loglevel, socketFamily, mode, tcpBacklog⟩

theorem ConfigValid.of_configLoadLine (valid : ConfigValid somaxconn config) (line : List UInt8) :
    ConfigValid somaxconn (configLoadLine somaxconn config line) := by
  unfold configLoadLine
  split
  · exact valid.of_addConfigValue _ _
  · exact valid

theorem ConfigValid.of_configLoadLoop :
    ∀ (fuel : Nat) (file : List UInt8) {config : Config}, ConfigValid somaxconn config →
      ConfigValid somaxconn (configLoadLoop somaxconn fuel file config)
  | 0, _, _, valid => valid
  | fuel + 1, file, _, valid => by
    unfold configLoadLoop
    split
    · exact valid
    · exact of_configLoadLoop fuel _ (valid.of_configLoadLine _)

/-- Whatever file `config_load` reads over the defaults, the log level is one of
the four of `util.h`, the socket family and the mode are ones the server knows,
and the backlog is at most `SOMAXCONN`. -/
theorem configLoad_valid (somaxconn : Int32) (file : Option (List UInt8)) :
    ConfigValid somaxconn (configLoad somaxconn file (configSetDefault somaxconn)).2 := by
  cases file with
  | none => exact configValid_configSetDefault somaxconn
  | some file => exact (configValid_configSetDefault somaxconn).of_configLoadLoop file.length file

end Valid

section Human

theorem numberLen_go_eq : ∀ (fuel n len : Nat), n < 10 ^ fuel →
    numberLen.go n fuel len = if n = 0 then len else len + (decimalDigits n).length
  | 0, n, len, small => by
    have zero : n = 0 := by simpa using small
    simp [numberLen.go, zero]
  | fuel + 1, n, len, small => by
    by_cases zero : n = 0
    · simp [numberLen.go, zero]
    · have below : n / 10 < 10 ^ fuel := by
        rw [Nat.pow_succ] at small
        omega
      rw [numberLen.go, if_neg zero, numberLen_go_eq fuel (n / 10) (len + 1) below, if_neg zero]
      by_cases one : n < 10
      · have : n / 10 = 0 := by omega
        simp [this, decimalDigits_of_lt_ten one]
      · have split : (decimalDigits n).length = (decimalDigits (n / 10)).length + 1 := by
          rw [decimalDigits_of_ten_le (by omega), List.length_append,
            decimalDigits_of_lt_ten (Nat.mod_lt n (by decide)), List.length_singleton]
        rw [split, if_neg (by omega)]
        omega

theorem numberLen_eq (number : UInt64) :
    numberLen number = if number.toNat = 0 then 1 else (decimalDigits number.toNat).length + 1 := by
  have small : number.toNat < 10 ^ 64 :=
    Nat.lt_of_lt_of_le (UInt64.toNat_lt number) (Nat.pow_le_pow_left (by decide) 64)
  rw [numberLen, numberLen_go_eq 64 _ 1 small]
  split_ifs <;> omega

theorem toNat_toUInt64_ofNat {x : Nat} (fits : x < 2 ^ 31) : (Int32.ofNat x).toInt64.toUInt64.toNat = x := by
  have nonneg : 0 ≤ (Int32.ofNat x).toInt64 := by
    rw [Int64.le_iff_toInt_le]
    simp [Int32.toInt_ofNat_of_lt fits]
  rw [Int64.toNat_toUInt64_of_le nonneg, Int64.toNatClampNeg, Int32.toInt_toInt64, Int32.toInt_ofNat_of_lt fits]
  simp

theorem humanString_bytes {value unit : UInt64} {suffix : String} {extra : Nat}
    (pos : 0 < value.toNat / unit.toNat) (fits : value.toNat / unit.toNat < 2 ^ 31)
    (room : (asciiBytes suffix).length ≤ extra) (nul_free : 0 ∉ asciiBytes suffix) :
    (humanString value unit suffix extra).bytes = decimalDigits (value.toNat / unit.toNat) ++ asciiBytes suffix := by
  have quotient : (value / unit).toNat = value.toNat / unit.toNat := UInt64.toNat_div value unit
  have toInt : (Int32.ofNat (value / unit).toNat).toInt = ((value.toNat / unit.toNat : Nat) : Int) := by
    rw [quotient]
    exact Int32.toInt_ofNat_of_lt fits
  have format : (formatInt (Int32.ofNat (value / unit).toNat)).bytes = decimalDigits (value.toNat / unit.toNat) := by
    unfold formatInt
    rw [if_neg (by rw [toInt]; omega)]
    show decimalDigits (Int32.ofNat (value / unit).toNat).toInt.toNat = _
    rw [toInt, Int.toNat_natCast]
  have len : numberLen (Int32.ofNat (value / unit).toNat).toInt64.toUInt64 =
      (decimalDigits (value.toNat / unit.toNat)).length + 1 := by
    rw [numberLen_eq, quotient, toNat_toUInt64_ofNat fits, if_neg (by omega)]
  have whole : 0 ∉ decimalDigits (value.toNat / unit.toNat) ++ asciiBytes suffix := by
    simpa [decimalDigits_nul_free] using nul_free
  dsimp only [humanString, snprintfInt]
  rw [len, format, List.take_of_length_le (by simp only [List.length_append]; omega),
    CStr.ofBytes_of_nul_free whole]

theorem leadingNumber_of_bytes {s : CStr} {x : Nat} {rest : List UInt8} (bytes : s.bytes = decimalDigits x ++ rest)
    (fits : x < 2 ^ 31) (stop : rest.head?.all (fun c => !isDigit c)) :
    (leadingNumber s).toNat = x ∧ s.bytes.dropWhile isDigit = rest := by
  have digits : ∀ c ∈ decimalDigits x, isDigit c = true := fun c mem => isDigit_of_mem_decimalDigits mem
  have front : s.bytes.takeWhile isDigit = decimalDigits x := by
    rw [bytes, List.takeWhile_append_of_pos digits, takeWhile_of_head stop, List.append_nil]
  have parsed : parseInt s = Int32.ofNat x := by
    rw [parseInt, front]
    exact (foldl_parse_ofNat (decimalDigits x) 0).trans (congrArg Int32.ofNat (decimalValue_decimalDigits x))
  refine ⟨?_, ?_⟩
  · rw [leadingNumber, parsed, toNat_toUInt64_ofNat fits]
  · rw [bytes, List.dropWhile_append_of_pos digits, dropWhile_of_head stop]

theorem toNat_leadingNumber_mul {s : CStr} {x : Nat} {rest : List UInt8} (bytes : s.bytes = decimalDigits x ++ rest)
    (fits : x < 2 ^ 31) (stop : rest.head?.all (fun c => !isDigit c)) {mul : Nat} (small : mul < 2 ^ 31) :
    (leadingNumber s * (Int32.ofNat mul).toInt64.toUInt64).toNat = x * mul := by
  rw [UInt64.toNat_mul, (leadingNumber_of_bytes bytes fits stop).1, toNat_toUInt64_ofNat small]
  apply Nat.mod_eq_of_lt
  calc x * mul < 2 ^ 31 * 2 ^ 31 := Nat.mul_lt_mul'' fits small
    _ ≤ 2 ^ 64 := by rw [← Nat.pow_add]; exact Nat.pow_le_pow_right (by decide) (by decide)

theorem toNat_read_humanString {value unit : UInt64} {suffix : String} {extra : Nat}
    (pos : 0 < value.toNat / unit.toNat) (fits : value.toNat / unit.toNat < 2 ^ 31)
    (room : (asciiBytes suffix).length ≤ extra) (nul_free : 0 ∉ asciiBytes suffix)
    (stop : (asciiBytes suffix).head?.all (fun c => !isDigit c)) (mulOf : List UInt8 → Int32) (mul : Nat)
    (small : mul < 2 ^ 31) (is_mul : mulOf (asciiBytes suffix) = Int32.ofNat mul) :
    (leadingNumber (humanString value unit suffix extra) *
        (mulOf ((humanString value unit suffix extra).bytes.dropWhile isDigit)).toInt64.toUInt64).toNat =
      value.toNat / unit.toNat * mul := by
  have bytes := humanString_bytes pos fits room nul_free
  rw [(leadingNumber_of_bytes bytes fits stop).2, is_mul]
  exact toNat_leadingNumber_mul bytes fits stop small

theorem toNat_lt_of_lt {x : UInt64} {n : Nat} (below : x < n.toUInt64) (small : n < 2 ^ 64) : x.toNat < n := by
  rw [UInt64.lt_iff_toNat_lt, toNat_toUInt64_of_lt small] at below
  exact below

theorem le_toNat_of_not_lt {x : UInt64} {n : Nat} (above : ¬ x < n.toUInt64) (small : n < 2 ^ 64) : n ≤ x.toNat := by
  rw [UInt64.lt_iff_toNat_lt, toNat_toUInt64_of_lt small] at above
  omega

/-- `read_memory_with_mul` reads back what `memory_to_string` writes, down to
its unit: bytes, then kilobytes, megabytes and gigabytes. -/
theorem readMemoryWithMul_memoryToString (memory : UInt64) (fits : memory.toNat / 1073741824 < 2 ^ 31) :
    (readMemoryWithMul (memoryToString memory)).toNat =
      if memory.toNat < 1024 then memory.toNat
      else if memory.toNat < 1048576 then memory.toNat / 1024 * 1024
      else if memory.toNat < 1073741824 then memory.toNat / 1048576 * 1048576
      else memory.toNat / 1073741824 * 1073741824 := by
  unfold memoryToString readMemoryWithMul
  by_cases bytes : memory < 1024
  · have below : memory.toNat < 1024 := toNat_lt_of_lt bytes (by decide)
    rw [if_pos bytes, if_pos below]
    by_cases zero : memory.toNat = 0
    · -- `number_len(0)` leaves room for the digit only: the string is "0"
      have : memory = 0 := UInt64.toNat_inj.mp zero
      subst this
      decide
    · refine (toNat_read_humanString ?_ ?_ (by decide) (by decide) (by decide) memoryMul 1 (by decide)
        (by decide)).trans ?_
      · simp
        omega
      · simp
        omega
      · simp
  have kilo : 1024 ≤ memory.toNat := le_toNat_of_not_lt bytes (by decide)
  rw [if_neg bytes, if_neg (show ¬ memory.toNat < 1024 by omega)]
  by_cases kb : memory < 1048576
  · have below : memory.toNat < 1048576 := toNat_lt_of_lt kb (by decide)
    rw [if_pos kb, if_pos below]
    refine (toNat_read_humanString ?_ ?_ (by decide) (by decide) (by decide) memoryMul 1024 (by decide)
      (by decide)).trans ?_
    · simp
      omega
    · simp
      omega
    · simp
  have mega : 1048576 ≤ memory.toNat := le_toNat_of_not_lt kb (by decide)
  rw [if_neg kb, if_neg (show ¬ memory.toNat < 1048576 by omega)]
  by_cases mb : memory < 1073741824
  · have below : memory.toNat < 1073741824 := toNat_lt_of_lt mb (by decide)
    rw [if_pos mb, if_pos below]
    refine (toNat_read_humanString ?_ ?_ (by decide) (by decide) (by decide) memoryMul 1048576 (by decide)
      (by decide)).trans ?_
    · simp
      omega
    · simp
      omega
    · simp
  have giga : 1073741824 ≤ memory.toNat := le_toNat_of_not_lt mb (by decide)
  rw [if_neg mb, if_neg (show ¬ memory.toNat < 1073741824 by omega)]
  refine (toNat_read_humanString ?_ ?_ (by decide) (by decide) (by decide) memoryMul 1073741824 (by decide)
    (by decide)).trans ?_
  · simp
    omega
  · simpa using fits
  · simp

theorem readMemoryWithMul_memoryToString_mb :
    (3 * 1048576 + 5 : UInt64).toNat / 1073741824 < 2 ^ 31 ∧
      (readMemoryWithMul (memoryToString (3 * 1048576 + 5))).toNat =
        if (3 * 1048576 + 5 : UInt64).toNat < 1024 then (3 * 1048576 + 5 : UInt64).toNat
        else if (3 * 1048576 + 5 : UInt64).toNat < 1048576 then (3 * 1048576 + 5 : UInt64).toNat / 1024 * 1024
        else if (3 * 1048576 + 5 : UInt64).toNat < 1073741824 then
          (3 * 1048576 + 5 : UInt64).toNat / 1048576 * 1048576
        else (3 * 1048576 + 5 : UInt64).toNat / 1073741824 * 1073741824 :=
  ⟨by decide, readMemoryWithMul_memoryToString _ (by decide)⟩

/-- `read_time_with_mul` reads back what `time_to_string` writes, down to its
unit, but for hours: `time_to_string` writes them with an `h`, which
`read_time_with_mul` reads as seconds. -/
theorem readTimeWithMul_timeToString (time : UInt64) (fits : time.toNat / 86400 < 2 ^ 31) :
    (readTimeWithMul (timeToString time)).toNat =
      if time.toNat < 60 then time.toNat
      else if time.toNat < 3600 then time.toNat / 60 * 60
      else if time.toNat < 86400 then time.toNat / 3600
      else time.toNat / 86400 * 86400 := by
  unfold timeToString readTimeWithMul
  by_cases seconds : time < 60
  · have below : time.toNat < 60 := toNat_lt_of_lt seconds (by decide)
    rw [if_pos seconds, if_pos below]
    by_cases zero : time.toNat = 0
    · have : time = 0 := UInt64.toNat_inj.mp zero
      subst this
      decide
    · refine (toNat_read_humanString ?_ ?_ (by decide) (by decide) (by decide) timeMul 1 (by decide)
        (by decide)).trans ?_
      · simp
        omega
      · simp
        omega
      · simp
  have minute : 60 ≤ time.toNat := le_toNat_of_not_lt seconds (by decide)
  rw [if_neg seconds, if_neg (show ¬ time.toNat < 60 by omega)]
  by_cases minutes : time < 60 * 60
  · have below : time.toNat < 3600 := toNat_lt_of_lt (show time < (3600 : Nat).toUInt64 from minutes) (by decide)
    rw [if_pos minutes, if_pos below]
    refine (toNat_read_humanString ?_ ?_ (by decide) (by decide) (by decide) timeMul 60 (by decide)
      (by decide)).trans ?_
    · simp
      omega
    · simp
      omega
    · simp
  have hour : 3600 ≤ time.toNat := le_toNat_of_not_lt (show ¬ time < (3600 : Nat).toUInt64 from minutes) (by decide)
  rw [if_neg minutes, if_neg (show ¬ time.toNat < 3600 by omega)]
  by_cases hours : time < 60 * 60 * 24
  · have below : time.toNat < 86400 := toNat_lt_of_lt (show time < (86400 : Nat).toUInt64 from hours) (by decide)
    rw [if_pos hours, if_pos below]
    refine (toNat_read_humanString ?_ ?_ (by decide) (by decide) (by decide) timeMul 1 (by decide)
      (by decide)).trans ?_
    · simp
      omega
    · simp
      omega
    · simp
  have day : 86400 ≤ time.toNat := le_toNat_of_not_lt (show ¬ time < (86400 : Nat).toUInt64 from hours) (by decide)
  rw [if_neg hours, if_neg (show ¬ time.toNat < 86400 by omega)]
  refine (toNat_read_humanString ?_ ?_ (by decide) (by decide) (by decide) timeMul 86400 (by decide)
    (by decide)).trans ?_
  · simp
    omega
  · simpa using fits
  · simp

theorem readTimeWithMul_timeToString_two_hours :
    (7200 : UInt64).toNat / 86400 < 2 ^ 31 ∧
      (readTimeWithMul (timeToString 7200)).toNat =
        if (7200 : UInt64).toNat < 60 then (7200 : UInt64).toNat
        else if (7200 : UInt64).toNat < 3600 then (7200 : UInt64).toNat / 60 * 60
        else if (7200 : UInt64).toNat < 86400 then (7200 : UInt64).toNat / 3600
        else (7200 : UInt64).toNat / 86400 * 86400 :=
  ⟨by decide, readTimeWithMul_timeToString _ (by decide)⟩

example : (timeToString 7200).bytes = asciiBytes "2h" ∧ readTimeWithMul (timeToString 7200) = 2 := by decide

end Human

section Dispatch

def ifChain {α : Type} : List (Bool × α) → α → α
  | [], default => default
  | (guard, result) :: rest, default => if guard then result else ifChain rest default

theorem ifChain_map_eq_find? {σ α : Type} (p : σ → Bool) (f : σ → α) (default : α) :
    ∀ cases : List σ, ifChain (cases.map fun c => (p c, f c)) default = ((cases.find? p).map f).getD default
  | [] => rfl
  | c :: cases => by
    cases pass : p c
    · simp [ifChain, pass, ifChain_map_eq_find? p f default cases]
    · simp [ifChain, pass]

theorem strncaseEq_length_iff : ∀ (name key : List UInt8),
    strncaseEq name key key.length = true ↔ key.map toLower <+: name.map toLower
  | _, [] => by simp [strncaseEq]
  | [], d :: key => by simp [strncaseEq]
  | c :: name, d :: key => by
    rw [List.length_cons, strncaseEq, Bool.and_eq_true, strncaseEq_length_iff name key, List.map_cons,
      List.map_cons, List.cons_prefix_cons, beq_iff_eq, eq_comm]

/-- The settings of `add_config_value`, in the order it tries their names. -/
inductive Setting where
  | logLevel | logPath | unixSocket | ipAddress | ipPort | maxMemory | memReclaimTime | maxRequestSize
  | tcpBacklog | mode
  deriving DecidableEq

def Setting.name : Setting → String
  | logLevel => "log_level"
  | logPath => "log_path"
  | unixSocket => "unix_socket"
  | ipAddress => "ip_address"
  | ipPort => "ip_port"
  | maxMemory => "max_memory"
  | memReclaimTime => "mem_reclaim_time"
  | maxRequestSize => "max_request_size"
  | tcpBacklog => "tcp_backlog"
  | mode => "mode"

def Setting.all : List Setting :=
  [logLevel, logPath, unixSocket, ipAddress, ipPort, maxMemory, memReclaimTime, maxRequestSize, tcpBacklog, mode]

def Setting.apply (somaxconn : Int32) (config : Config) (value : CStr) : Setting → Config
  | logLevel => setLogLevel config value
  | logPath => { config with logpath := value }
  | unixSocket => { config with socketFamily := UNIX, hostname := value }
  | ipAddress => { config with socketFamily := INET, hostname := value }
  | ipPort => { config with port := value }
  | maxMemory => { config with maxMemory := readMemoryWithMul value }
  | memReclaimTime => { config with memReclaimTime := readTimeWithMul value }
  | maxRequestSize => { config with maxRequestSize := readMemoryWithMul value }
  | tcpBacklog =>
    { config with tcpBacklog := if parseInt value ≤ somaxconn then parseInt value else somaxconn }
  | mode =>
    { config with mode := if strncaseEq value.bytes (asciiBytes "STANDALONE") 10 then 1
                          else if false then STANDALONE else CLUSTER }

theorem addConfigValue_eq_ifChain (somaxconn : Int32) (config : Config) (key value : CStr) :
    addConfigValue somaxconn config key value =
      ifChain (Setting.all.map fun s => (namesKey s.name key, s.apply somaxconn config value)) config :=
  rfl

/-- `add_config_value` applies the first setting, in its order, whose name the
key is a prefix of up to case, and ignores a key that is a prefix of no name:
`ip` sets the address, `m` the maximum memory, `LOG` the log level. -/
theorem addConfigValue_eq_first_prefix (somaxconn : Int32) (config : Config) (key value : CStr) :
    addConfigValue somaxconn config key value =
      ((Setting.all.find? fun s => decide (key.bytes.map toLower <+: (asciiBytes s.name).map toLower)).map
        (Setting.apply somaxconn config value)).getD config := by
  have names : (fun s : Setting => namesKey s.name key) =
      fun s => decide (key.bytes.map toLower <+: (asciiBytes s.name).map toLower) := by
    funext s
    rw [namesKey, Bool.eq_iff_iff, decide_eq_true_iff]
    exact strncaseEq_length_iff _ _
  rw [addConfigValue_eq_ifChain, ← names]
  exact ifChain_map_eq_find? (fun s => namesKey s.name key) (Setting.apply somaxconn config value) config Setting.all

example : (addConfigValue 4096 (configSetDefault 4096) ⟨asciiBytes "ip", by decide⟩
    ⟨asciiBytes "10.0.0.1", by decide⟩).hostname.bytes = asciiBytes "10.0.0.1" := by decide

end Dispatch

end TrieDB
