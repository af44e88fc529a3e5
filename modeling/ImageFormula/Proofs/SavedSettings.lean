import ImageFormula.Command.Run
import ImageFormula.Proofs.Documents

/-!
# Saved settings

The text of settings is read back as the same settings, as long as their numbers fit in their types
(`Config.parse_text`). The numbers of settings that commands load always fit: those of a file
are checked when it is read, and those of a command line when its arguments are. A path that leads
to a file still leads to it after it is written (`Folder.locate_put`), so that settings which are
saved by one command are what the next one shows. The main statement is `Config.text_readsBack`.
-/

namespace ImageFormula

/-- Limits that fit in their types. -/
structure Limits.Fits (limits : Limits) : Prop where
  slots : limits.slots < Config.slotBound
  depth : limits.depth < Config.depthBound

namespace Config

/-! ## What settings are read from -/

theorem natural?_integer {bound n : Nat} (below : n < bound) :
    Toml.Node.natural? bound (.integer n) = some n := by
  show (if 0 ≤ (n : Int) ∧ (n : Int) < bound then some (n : Int).toNat else none) = _
  rw [if_pos (by omega), Int.toNat_natCast]

theorem natural?_lt {bound n : Nat} {node : Toml.Node} (found : node.natural? bound = some n) :
    n < bound := by
  unfold Toml.Node.natural? at found
  split at found
  · split at found
    · cases found
      omega
    · cases found
  · cases found

theorem limitsOf?_eq_some_iff {slots depth : Option Toml.Node} {limits : Limits} :
    limitsOf? slots depth = some limits ↔
      slots.elim (some Limits.default.slots) (Toml.Node.natural? slotBound) = some limits.slots ∧
      depth.elim (some Limits.default.depth) (Toml.Node.natural? depthBound) =
        some limits.depth := by
  unfold limitsOf?
  generalize slots.elim (some Limits.default.slots) (Toml.Node.natural? slotBound) = first
  generalize depth.elim (some Limits.default.depth) (Toml.Node.natural? depthBound) = second
  cases limits
  cases first <;> cases second <;> simp

theorem limits?_table {origin : Toml.Origin} {fields : Toml.Fields}
    (readable : othersReadable ["max_image_slots", "max_depth"] fields = true) :
    limits? (.table origin fields) =
      limitsOf? (fields.lookup "max_image_slots") (fields.lookup "max_depth") :=
  if_pos readable

theorem ofFields?_eq_some_iff {fields : Toml.Fields} {config : Config} :
    ofFields? fields = some config ↔
      othersReadable ["compiler", "log"] fields = true ∧
      (fields.lookup "compiler").elim (some Limits.default) limits? = some config.limits ∧
      (fields.lookup "log").elim (some defaultLevel) level? = some config.level := by
  unfold ofFields?
  generalize (fields.lookup "compiler").elim (some Limits.default) limits? = limits
  generalize (fields.lookup "log").elim (some defaultLevel) level? = level
  cases config
  cases limits <;> cases level <;> simp

theorem parse_eq_ok_iff {text : String} {config : Config} :
    parse text = .ok config ↔
      ∃ fields, Toml.readDocument text = some fields ∧ ofFields? fields = some config := by
  unfold parse
  cases Toml.readDocument text with
  | none => simp
  | some fields => cases found : ofFields? fields <;> simp [found]

/-! ## The text of settings -/

/-- The statements of settings. -/
def statements (config : Config) : List Toml.Statement :=
  [.header ⟨["compiler"], false⟩,
    .assignment ["max_image_slots"] (.integer config.limits.slots),
    .assignment ["max_depth"] (.integer config.limits.depth),
    .header ⟨["log"], false⟩,
    .assignment ["level"] (.text config.level)]

theorem isDocument_text (config : Config) :
    Toml.IsDocument config.text.toList config.statements := by
  have compiler : Toml.IsBareKey "compiler" := ⟨by decide, by decide⟩
  have slots : Toml.IsBareKey "max_image_slots" := ⟨by decide, by decide⟩
  have depth : Toml.IsBareKey "max_depth" := ⟨by decide, by decide⟩
  have log : Toml.IsBareKey "log" := ⟨by decide, by decide⟩
  have level : Toml.IsBareKey "level" := ⟨by decide, by decide⟩
  have logged := Toml.IsDocument.line (Toml.isStatement_header log)
    (.line (Toml.isStatement_line level (Toml.isValue_quote config.level.toList)) .empty)
  have document := Toml.IsDocument.line (Toml.isStatement_header compiler)
    (.line (Toml.isStatement_line slots (Toml.isValue_toDigits config.limits.slots))
      (.line (Toml.isStatement_line depth (Toml.isValue_toDigits config.limits.depth))
        (.blank logged)))
  have isText : config.text.toList = _ := String.toList_ofList
  rw [String.ofList_toList] at document
  rw [isText]
  simpa [statements, line] using document

/-- The `compiler` table of settings. -/
def limitFields (limits : Limits) : Toml.Fields :=
  [("max_image_slots", .integer limits.slots), ("max_depth", .integer limits.depth)]

/-- The tables of settings. -/
def fields (config : Config) : Toml.Fields :=
  [("compiler", .table .header (limitFields config.limits)),
    ("log", .table .header [("level", .text config.level)])]

theorem build_statements (config : Config) : Toml.build config.statements = some config.fields :=
  rfl

theorem limits?_limitFields {limits : Limits} (fits : limits.Fits) :
    limits? (.table .header (limitFields limits)) = some limits := by
  have slots : (limitFields limits).lookup "max_image_slots" = some (.integer limits.slots) := rfl
  have depth : (limitFields limits).lookup "max_depth" = some (.integer limits.depth) := rfl
  rw [limits?_table rfl, slots, depth, limitsOf?_eq_some_iff, Option.elim_some, Option.elim_some]
  exact ⟨natural?_integer fits.slots, natural?_integer fits.depth⟩

theorem ofFields?_fields {config : Config} (fits : config.limits.Fits) :
    ofFields? config.fields = some config := by
  have compiler : config.fields.lookup "compiler" =
      some (.table .header (limitFields config.limits)) := rfl
  rw [ofFields?_eq_some_iff, compiler, Option.elim_some]
  exact ⟨rfl, limits?_limitFields fits, rfl⟩

/-- Settings are read back from their text. -/
theorem parse_text {config : Config} (fits : config.limits.Fits) :
    parse config.text = .ok config := by
  have read := (isDocument_text config).readStatements 0
  rw [List.replicate_zero, List.nil_append] at read
  have unmarked : Toml.dropMark config.text.toList = config.text.toList := by
    unfold text
    rw [String.toList_ofList]
    rfl
  refine parse_eq_ok_iff.mpr ⟨config.fields, ?_, ofFields?_fields fits⟩
  unfold Toml.readDocument
  rw [unmarked, read]
  exact build_statements config

/-! ## Settings that are loaded -/

theorem fits_default : Limits.default.Fits := ⟨by decide, by decide⟩

theorem fits_of_limitsOf? {slots depth : Option Toml.Node} {limits : Limits}
    (found : limitsOf? slots depth = some limits) : limits.Fits := by
  obtain ⟨isSlots, isDepth⟩ := limitsOf?_eq_some_iff.mp found
  constructor
  · cases slots with
    | none =>
        rw [← Option.some.inj isSlots]
        exact fits_default.slots
    | some node => exact natural?_lt isSlots
  · cases depth with
    | none =>
        rw [← Option.some.inj isDepth]
        exact fits_default.depth
    | some node => exact natural?_lt isDepth

theorem fits_of_limits? {node : Toml.Node} {limits : Limits} (found : limits? node = some limits) :
    limits.Fits := by
  unfold limits? at found
  split at found
  · split at found
    · exact fits_of_limitsOf? found
    · cases found
  · exact fits_of_limitsOf? found
  · exact fits_of_limitsOf? found
  · cases found

theorem fits_of_parse {text : String} {config : Config} (parsed : parse text = .ok config) :
    config.limits.Fits := by
  obtain ⟨fields, -, found⟩ := parse_eq_ok_iff.mp parsed
  obtain ⟨-, isLimits, -⟩ := ofFields?_eq_some_iff.mp found
  cases compiler : fields.lookup "compiler" with
  | none =>
      rw [compiler] at isLimits
      rw [← Option.some.inj isLimits]
      exact fits_default
  | some node =>
      rw [compiler] at isLimits
      exact fits_of_limits? isLimits

end Config

/-! ## Slots on a command line -/

namespace Settings

/-- Slots that are given fit in their type. -/
def Fits (settings : Settings) : Prop := ∀ n ∈ settings.slots, n < Config.slotBound

theorem slotNumber?_lt {text : String} {n : Nat} (found : slotNumber? text = some n) :
    n < Config.slotBound := by
  unfold slotNumber? at found
  split at found
  all_goals
    obtain ⟨-, below⟩ := Option.filter_eq_some_iff.mp found
  · exact of_decide_eq_true below
  · rw [eq_of_beq below]
    decide
  · exact of_decide_eq_true below

theorem Fits.set? {settings after : Settings} {name value : String} (fits : settings.Fits)
    (set : settings.set? name value = some after) : after.Fits := by
  unfold Settings.set? at set
  split at set
  · split at set
    · cases set
      exact fits
    · cases set
  · split at set
    · obtain ⟨n, isSlots, rfl⟩ := Option.map_eq_some_iff.mp set
      intro n' same
      cases same
      exact slotNumber?_lt isSlots
    · cases set
  iterate 3
    split at set
    · obtain ⟨x, -, rfl⟩ := Option.map_eq_some_iff.mp set
      exact fits
    · cases set
  · cases set

theorem Fits.raise? {settings after : Settings} {name : String} (fits : settings.Fits)
    (raised : settings.raise? name = some after) : after.Fits := by
  unfold Settings.raise? at raised
  split at raised
  · split at raised
    · cases raised
    · cases raised
      exact fits
  · split at raised
    · cases raised
    · cases raised
      exact fits
  · cases raised

theorem Fits.read {signature : Signature} {settings after : Settings}
    {words words' arguments : List String} (fits : settings.Fits)
    (read : signature.read settings words arguments = some (after, words')) : after.Fits := by
  fun_induction Signature.read signature settings words arguments with
  | case1 | case2 =>
      cases read
      exact fits
  | case3 =>
      rename_i ih
      exact ih fits read
  | case5 | case11 =>
      rename_i set ih
      exact ih (fits.set? set) read
  | case8 =>
      rename_i raised ih
      exact ih (fits.raise? raised) read
  | case4 | case6 | case7 | case9 | case10 | case12 | case13 | case14 => cases read

end Settings

namespace Request

theorem slots_lt_of_command {before : Settings} (fits : before.Fits) {name : String}
    {arguments : List String} {asked : Invocation}
    (request : ofCommand before name arguments = .invocation asked) :
    ∀ n ∈ asked.slots, n < Config.slotBound := by
  unfold ofCommand at request
  split at request
  · cases request
  · split at request
    · cases request
    · rename_i settings words read
      have own : settings.Fits := Settings.Fits.read (fun _ absent => by cases absent) read
      split at request
      · cases request
      · cases request
        intro n given
        rcases Option.or_eq_some_iff.mp given with given | ⟨-, given⟩
        · exact own n given
        · exact fits n given

/-- Slots that a command line gives fit in their type. -/
theorem slots_lt {arguments : List String} {asked : Invocation}
    (request : ofArguments arguments = .invocation asked) :
    ∀ n ∈ asked.slots, n < Config.slotBound := by
  unfold ofArguments at request
  have fits : Settings.empty.Fits := fun _ absent => by cases absent
  generalize Settings.empty = settings at fits request
  fun_induction Request.read settings arguments with
  | case3 => exact slots_lt_of_command fits request
  | case6 | case11 =>
      rename_i set ih
      exact ih (fits.set? set) request
  | case1 | case2 | case4 | case5 | case7 | case8 | case9 | case10 | case12 | case13 | case14 =>
      cases request

end Request

namespace Invocation

variable {asked : Invocation} {found : Except FileError String} {config : Config}

/-- Settings are read from a file, or are the default ones where no file is named. -/
theorem exists_of_load (loaded : asked.load found = .ok config) :
    ∃ read : Config, read.limits.Fits ∧
      config = { read with limits.slots := asked.slots.getD read.limits.slots } ∧
      ((∃ contents, found = .ok contents) ∨ asked.configName = none) := by
  unfold load at loaded
  cases found with
  | ok contents =>
      cases parsed : Config.parse contents with
      | error fault => simp [parsed, Except.map] at loaded
      | ok read =>
          simp only [parsed, Except.map] at loaded
          cases loaded
          exact ⟨read, Config.fits_of_parse parsed, rfl, .inl ⟨contents, rfl⟩⟩
  | error cause =>
      cases named : asked.configName with
      | some name => simp [named, Except.map] at loaded
      | none =>
          simp only [named, Except.map] at loaded
          cases loaded
          exact ⟨Config.default, Config.fits_default, rfl, .inr rfl⟩

theorem fits_of_load (given : ∀ n ∈ asked.slots, n < Config.slotBound)
    (loaded : asked.load found = .ok config) : config.limits.Fits := by
  obtain ⟨read, fits, rfl, -⟩ := exists_of_load loaded
  refine ⟨?_, fits.depth⟩
  show asked.slots.getD read.limits.slots < Config.slotBound
  cases slots : asked.slots with
  | none => exact fits.slots
  | some n => exact given n slots

/-- Settings that were written are loaded as they are where no slots are given. -/
theorem load_text (own : asked.slots = none) (fits : config.limits.Fits) :
    asked.load (.ok config.text) = .ok config := by
  unfold load
  rw [own]
  show (Config.parse config.text).map _ = _
  rw [Config.parse_text fits]
  rfl

end Invocation

/-! ## Files that are written -/

namespace Folder

/-- A path leads to the same file after this file is written. -/
theorem follow_put {folder : Folder} {isInside : Bool} {parts : List String} {name : String}
    (found : folder.follow isInside parts = .ok name) (contents : String) :
    (folder.put name contents).follow isInside parts = .ok name := by
  fun_induction Folder.follow folder isInside parts with
  | case2 =>
      rename_i skipped ih
      rw [follow, if_pos skipped]
      exact ih found
  | case3 =>
      rename_i ih
      rw [follow, if_neg (by decide), if_pos rfl]
      exact ih found
  | case5 =>
      rename_i isPlain isInner isShort isFile isLast
      cases found
      rw [Bool.and_eq_true] at isFile
      rw [follow, if_neg isPlain, if_neg isInner, if_neg isShort, isFile.1, get?_put]
      exact if_pos isLast
  | case1 | case4 | case6 | case7 => cases found

theorem locate_put {folder : Folder} {path name : String}
    (found : folder.locate path = .ok name) (contents : String) :
    (folder.put name contents).locate path = .ok name := by
  unfold locate at found ⊢
  split at found
  · cases found
  · rename_i isShort
    rw [if_neg isShort]
    exact follow_put found contents

theorem locate_fileName (folder : Folder) : folder.locate Config.fileName =
    if (folder.get? Config.fileName).isSome then .ok Config.fileName else .error .notFound := by
  have parts : partsFrom [] Config.fileName.toList = [Config.fileName] := by decide
  unfold locate
  rw [if_neg (by decide), parts, follow, if_neg (by decide), if_neg (by decide), if_neg (by decide)]
  rfl

/-- A file is read as it was written, also one that is new and has the name of settings. -/
theorem read_write {folder : Folder} {path : String}
    (known : (∃ name, folder.locate path = .ok name) ∨ path = Config.fileName)
    (contents : String) : (folder.write path contents).read path = .ok contents := by
  have found : ∃ name, folder.write path contents = folder.put name contents ∧
      (folder.put name contents).locate path = .ok name := by
    unfold write
    cases located : folder.locate path with
    | ok name => exact ⟨name, rfl, locate_put located contents⟩
    | error cause =>
        obtain ⟨name, located'⟩ | rfl := known
        · rw [located] at located'
          cases located'
        · refine ⟨Config.fileName, rfl, ?_⟩
          rw [locate_fileName, get?_put]
          rfl
  obtain ⟨name, written, located⟩ := found
  unfold read
  rw [written, located]
  show (get? _ name).elim _ _ = _
  rw [get?_put]
  rfl

theorem locate_of_read {folder : Folder} {path contents : String}
    (found : folder.read path = .ok contents) : ∃ name, folder.locate path = .ok name := by
  unfold read at found
  split at found
  · cases found
  · exact ⟨_, ‹_›⟩

theorem read_congr {folder : Folder} {path path' : String}
    (same : folder.locate path = folder.locate path') : folder.read path = folder.read path' := by
  unfold read
  rw [same]

theorem load_of_run {folder : Folder} {arguments : List String} {asked : Invocation}
    (request : Request.ofArguments arguments = .invocation asked) {message : String}
    {after : Folder} (ended : folder.run arguments = (.done message, after)) :
    ∃ config, asked.load (folder.read asked.path) = .ok config := by
  cases loaded : asked.load (folder.read asked.path) with
  | ok config => exact ⟨config, rfl⟩
  | error fault =>
      simp only [run, request, Request.path?, Option.getD_some, Request.run, loaded] at ended
      cases ended

/-- What one command saves, the next one shows. -/
theorem run_saved {folder saved : Folder} {arguments later : List String}
    {saving showing : Invocation} {message : String}
    (first : Request.ofArguments arguments = .invocation saving)
    (saves : saving.command = .config true)
    (ended : folder.run arguments = (.done message, saved))
    (second : Request.ofArguments later = .invocation showing)
    (shows : showing.command = .config false) (own : showing.slots = none)
    (same : saved.locate showing.path = saved.locate saving.path) :
    ∃ config, saving.load (folder.read saving.path) = .ok config ∧
      saved.read saving.path = .ok config.text ∧
      saved.run later = (.done config.text, saved) := by
  obtain ⟨config, loaded⟩ := load_of_run first ended
  have fits := Invocation.fits_of_load (Request.slots_lt first) loaded
  have written : saved = folder.write saving.path config.text := by
    rw [run_of_load first loaded] at ended
    have isSaved : saving.saved? config = some config.text := by
      unfold Invocation.saved?
      rw [saves]
    rw [isSaved] at ended
    exact (Prod.mk.inj ended).2.symm
  have known : (∃ name, folder.locate saving.path = .ok name) ∨
      saving.path = Config.fileName := by
    obtain ⟨-, -, -, ⟨contents, found⟩ | unnamed⟩ := Invocation.exists_of_load loaded
    · exact .inl (locate_of_read found)
    · right
      unfold Invocation.path
      rw [unnamed]
      rfl
  have contents : saved.read saving.path = .ok config.text := by
    rw [written]
    exact read_write known config.text
  have reloaded : showing.load (saved.read showing.path) = .ok config := by
    rw [read_congr same, contents]
    exact Invocation.load_text own fits
  refine ⟨config, loaded, contents, ?_⟩
  rw [run_of_load second reloaded]
  unfold Invocation.outcome Invocation.saved?
  rw [shows]
  rfl

end Folder

/-! ## Saved settings -/

/-- Settings are read back from their text, whatever the level is. So where one command line saves
the settings that it loads, with other slots if it gives them, a later one that shows the settings
of the same file prints the text that was written, and this text stands for the same settings. -/
theorem Config.text_readsBack :
    (∀ config : Config, config.limits.Fits → parse config.text = .ok config) ∧
    ∀ (folder saved : Folder) (arguments later : List String) (saving showing : Invocation)
      (message : String),
      Request.ofArguments arguments = .invocation saving → saving.command = .config true →
      folder.run arguments = (.done message, saved) →
      Request.ofArguments later = .invocation showing → showing.command = .config false →
      showing.slots = none → saved.locate showing.path = saved.locate saving.path →
      ∃ config, saving.load (folder.read saving.path) = .ok config ∧
        saved.read saving.path = .ok config.text ∧ parse config.text = .ok config ∧
        saved.run later = (.done config.text, saved) := by
  refine ⟨fun config fits => parse_text fits, ?_⟩
  intro folder saved arguments later saving showing message first saves ended second shows own same
  obtain ⟨config, loaded, contents, shown⟩ :=
    Folder.run_saved first saves ended second shows own same
  have fits := Invocation.fits_of_load (Request.slots_lt first) loaded
  exact ⟨config, loaded, contents, parse_text fits, shown⟩

/-- The greatest numbers with a level that needs escapes, and a level of two lines that is saved
with other slots. -/
theorem Config.text_readsBack_escapes :
    (parse (text ⟨⟨0xffffffff, 0xffffffffffffffff⟩, "é\t\n\"\"\"'''\\\x01\""⟩) =
      .ok ⟨⟨0xffffffff, 0xffffffffffffffff⟩, "é\t\n\"\"\"'''\\\x01\""⟩) ∧
    ∃ config, Invocation.load ⟨none, some 9, .config true⟩
        (.ok "compiler = \x7b max_depth = 7 \x7d\nlog.level = \"\\n\\\"'\"") = .ok config ∧
      Folder.read ⟨[("pixeq.toml", "[compiler]\nmax_image_slots = 9\nmax_depth = 7\n\n[log]\n" ++
        "level = \"\"\"\n\n\"'\"\"\"\n")]⟩ "pixeq.toml" = .ok config.text ∧
      parse config.text = .ok config ∧
      Folder.run ⟨[("pixeq.toml", "[compiler]\nmax_image_slots = 9\nmax_depth = 7\n\n[log]\n" ++
        "level = \"\"\"\n\n\"'\"\"\"\n")]⟩ ["config", "--config=./pixeq.toml"] =
        (.done config.text, ⟨[("pixeq.toml", "[compiler]\nmax_image_slots = 9\nmax_depth = 7\n\n" ++
          "[log]\nlevel = \"\"\"\n\n\"'\"\"\"\n")]⟩) :=
  ⟨Config.text_readsBack.1 _ ⟨by decide, by decide⟩,
    Config.text_readsBack.2
      ⟨[("pixeq.toml", "compiler = \x7b max_depth = 7 \x7d\nlog.level = \"\\n\\\"'\"")]⟩ _
      ["--images", "9", "config", "--write"] ["config", "--config=./pixeq.toml"]
      ⟨none, some 9, .config true⟩ ⟨some "./pixeq.toml", none, .config false⟩ "wrote pixeq.toml\n"
      (by decide +kernel) rfl (by decide +kernel) (by decide +kernel) rfl rfl (by decide +kernel)⟩

end ImageFormula
