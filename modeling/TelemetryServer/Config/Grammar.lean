import Mathlib.Data.List.Induction
import Mathlib.Data.List.TakeWhile
import Mathlib.Data.Nat.Digits.Defs
import TelemetryServer.Config.ConfigParser
import TelemetryServer.Storage.FileStore

namespace TelemetryServer.Config

open Protocol Atomic

structure Decimal (text : String) (n : Nat) : Prop where
  nonempty : text ≠ ""
  digits : ∀ c ∈ text.toList, c.isDigit = true
  value : n = Nat.ofDigits 10 (text.toList.reverse.map digitValue)

inductive Group
  | quiet
  | port (n : UInt16)
  | dataFile (path : String)
  | segmentBytes (n : UInt64)
  | syncBytes (n : UInt64)
  deriving DecidableEq, Repr

inductive Spells : Group → List String → Prop
  | quiet : Spells .quiet ["--quiet"]
  | port {text : String} {n : UInt16} : Decimal text n.toNat → 1 ≤ n.toNat →
      Spells (.port n) ["--port", text]
  | dataFile {path : String} : path ≠ "" → Spells (.dataFile path) ["--data-file", path]
  | segmentBytes {text : String} {n : UInt64} : Decimal text n.toNat →
      Spells (.segmentBytes n) ["--segment-bytes", text]
  | syncBytes {text : String} {n : UInt64} : Decimal text n.toNat →
      Spells (.syncBytes n) ["--sync-bytes", text]

/-- An argument list cut into options from left to right. -/
inductive Splits : List String → List Group → Prop
  | nil : Splits [] []
  | cons {g : Group} {front rest : List String} {gs : List Group} :
      Spells g front → Splits rest gs → Splits (front ++ rest) (g :: gs)

namespace Group

def port? : Group → Option UInt16
  | .port n => some n
  | _ => none

def dataFile? : Group → Option String
  | .dataFile path => some path
  | _ => none

def segmentBytes? : Group → Option UInt64
  | .segmentBytes n => some n
  | _ => none

def syncBytes? : Group → Option UInt64
  | .syncBytes n => some n
  | _ => none

end Group

/-- The last value an option is given, else its default. -/
def lastOf {α : Type} (option : Group → Option α) (default : α) (gs : List Group) : α :=
  (gs.filterMap option).getLast?.getD default

def configOf (gs : List Group) : AppConfig where
  port := lastOf Group.port? ({} : AppConfig).port gs
  dataFilePath := lastOf Group.dataFile? ({} : AppConfig).dataFilePath gs
  maxSegmentBytes := lastOf Group.segmentBytes? ({} : AppConfig).maxSegmentBytes gs
  syncEveryBytes := lastOf Group.syncBytes? ({} : AppConfig).syncEveryBytes gs
  quiet := decide (Group.quiet ∈ gs)

structure AppConfig.Fits (config : AppConfig) : Prop where
  least : kFrameSize ≤ config.maxSegmentBytes.toNat
  whole : kFrameSize ∣ config.maxSegmentBytes.toNat
  sync : config.syncEveryBytes.toNat = 0 ∨
    config.syncEveryBytes.toNat ≤ config.maxSegmentBytes.toNat

/-- The storage settings that reach `FileStore`. -/
def AppConfig.storage (config : AppConfig) : Storage.FileStoreConfig :=
  ⟨config.maxSegmentBytes.toNat, config.syncEveryBytes.toNat, config.maxSegmentBytes.toNat_lt,
    config.syncEveryBytes.toNat_lt⟩

def Group.set (config : AppConfig) : Group → AppConfig
  | .quiet => { config with quiet := true }
  | .port n => { config with port := n }
  | .dataFile path => { config with dataFilePath := path }
  | .segmentBytes n => { config with maxSegmentBytes := n }
  | .syncBytes n => { config with syncEveryBytes := n }

theorem lastOf_concat {α : Type} (option : Group → Option α) (default : α) (gs : List Group)
    (g : Group) : lastOf option default (gs ++ [g]) = (option g).getD (lastOf option default gs) := by
  rw [lastOf, List.filterMap_append]
  cases found : option g with
  | none => simp [found, lastOf]
  | some value => simp [found]

/-- Reading the options in order leaves the last value of each. -/
theorem foldl_set (gs : List Group) : gs.foldl Group.set {} = configOf gs := by
  induction gs using List.reverseRecOn with
  | nil => rfl
  | append_singleton gs g ih =>
      rw [List.foldl_append, ih]
      cases g <;> simp [Group.set, configOf, lastOf_concat, Group.port?, Group.dataFile?,
        Group.segmentBytes?, Group.syncBytes?]

theorem fold_value (cs : List Char) :
    cs.foldl (fun n c => n * 10 + digitValue c) 0 = Nat.ofDigits 10 (cs.reverse.map digitValue) := by
  induction cs using List.reverseRecOn with
  | nil => rfl
  | append_singleton cs c ih =>
      rw [List.foldl_append, ih, List.reverse_append]
      simp only [List.foldl_cons, List.foldl_nil, List.reverse_cons, List.reverse_nil, List.nil_append,
        List.singleton_append, List.map_cons, Nat.ofDigits_cons]
      omega

theorem fromChars_digits {width : Nat} {cs : List Char} (some : cs ≠ [])
    (digits : ∀ c ∈ cs, c.isDigit = true) :
    fromChars width cs = if Nat.ofDigits 10 (cs.reverse.map digitValue) < 2 ^ width then
      { rest := [], error := .none, value := Nat.ofDigits 10 (cs.reverse.map digitValue) }
      else { rest := [], error := .resultOutOfRange, value := 0 } := by
  have all : cs.takeWhile Char.isDigit = cs := List.takeWhile_eq_self_iff.mpr digits
  have rest : cs.dropWhile Char.isDigit = [] := List.dropWhile_eq_nil_iff.mpr digits
  have filled : ¬ cs.isEmpty = true := by simpa using some
  rw [fromChars, all, rest, ← fold_value]
  exact if_neg filled

theorem fromChars_other {width : Nat} {cs : List Char} (other : ¬ ∀ c ∈ cs, c.isDigit = true) :
    (fromChars width cs).error ≠ .none ∨ (fromChars width cs).rest ≠ [] := by
  have rest : cs.dropWhile Char.isDigit ≠ [] := fun none => other (List.dropWhile_eq_nil_iff.mp none)
  rw [fromChars]
  dsimp only
  split
  · exact Or.inl nofun
  · right
    split <;> exact rest

/-- A number is read if and only if the whole text is digits and its value fits. -/
theorem parseUnsigned_eq_some {width n : Nat} {text : String} :
    parseUnsigned width text = some n ↔ Decimal text n ∧ n < 2 ^ width := by
  by_cases blank : text = ""
  · subst blank
    constructor
    · intro parsed
      cases parsed
    · exact fun both => absurd rfl both.1.nonempty
  have filled : ¬ text.isEmpty = true := by simpa using blank
  have chars : text.toList ≠ [] := by simpa using blank
  rw [parseUnsigned, if_neg filled]
  dsimp only
  by_cases digits : ∀ c ∈ text.toList, c.isDigit = true
  · have number : Decimal text n ↔ n = Nat.ofDigits 10 (text.toList.reverse.map digitValue) :=
      ⟨fun decimal => decimal.value, fun value => ⟨blank, digits, value⟩⟩
    rw [fromChars_digits chars digits, number]
    split
    · next fits =>
        rw [if_neg (by simp)]
        constructor
        · intro same
          rw [← Option.some.inj same]
          exact ⟨rfl, fits⟩
        · rintro ⟨same, _⟩
          rw [same]
    · next large =>
        rw [if_pos (by simp)]
        constructor
        · intro same
          cases same
        · rintro ⟨same, fits⟩
          rw [same] at fits
          exact absurd fits large
  · rw [if_pos (fromChars_other digits)]
    constructor
    · intro same
      cases same
    · exact fun both => absurd both.1.digits digits

theorem parseUnsigned_spells {text : String} {n : Nat} {width : Nat} (small : n < 2 ^ width) :
    parseUnsigned width text = some n ↔ Decimal text n := by
  rw [parseUnsigned_eq_some]
  exact ⟨fun both => both.1, fun decimal => ⟨decimal, small⟩⟩

theorem parseFrom_spells {g : Group} {front : List String} (spells : Spells g front)
    (config : AppConfig) (rest : List String) :
    parseFrom config (front ++ rest) = parseFrom (g.set config) rest := by
  cases spells with
  | quiet =>
      rw [List.singleton_append, parseFrom.eq_def]
      simp [Group.set]
  | @port text n decimal positive =>
      have parsed := (parseUnsigned_spells n.toNat_lt).mpr decimal
      have some : n.toNat ≠ 0 := by omega
      simp [parseFrom, parsed, Group.set, some]
  | dataFile nonempty => simp [parseFrom, Group.set, nonempty]
  | @segmentBytes text n decimal =>
      have parsed := (parseUnsigned_spells n.toNat_lt).mpr decimal
      simp [parseFrom, parsed, Group.set]
  | @syncBytes text n decimal =>
      have parsed := (parseUnsigned_spells n.toNat_lt).mpr decimal
      simp [parseFrom, parsed, Group.set]

theorem parseFrom_splits {front : List String} {gs : List Group} (splits : Splits front gs)
    (config : AppConfig) (rest : List String) :
    parseFrom config (front ++ rest) = parseFrom (gs.foldl Group.set config) rest := by
  induction splits generalizing config with
  | nil => rfl
  | cons spells _ ih => rw [List.append_assoc, parseFrom_spells spells, ih, List.foldl_cons]

/-- How the parser stops: behind the last option, at a request for help, or at something that
is no option. -/
inductive Stops (config : AppConfig) (arguments : List String) : Prop
  | ends (gs : List Group) : Splits arguments gs →
      parseFrom config arguments = parseFrom (gs.foldl Group.set config) [] → Stops config arguments
  | help (front rest : List String) (flag : String) (gs : List Group) :
      arguments = front ++ flag :: rest → Splits front gs → flag = "--help" ∨ flag = "-h" →
      (parseFrom config arguments).status = .helpRequested → Stops config arguments
  | fails : (parseFrom config arguments).status = .error → Stops config arguments

theorem Stops.behind {g : Group} {front rest : List String} {config : AppConfig}
    (spells : Spells g front) (stops : Stops (g.set config) rest) : Stops config (front ++ rest) := by
  have step := parseFrom_spells spells config rest
  cases stops with
  | ends gs splits same => exact .ends (g :: gs) (.cons spells splits) (step.trans same)
  | help front' rest' flag gs cut splits which status =>
      refine .help (front ++ front') rest' flag (g :: gs) ?_ (.cons spells splits) which ?_
      · rw [cut, List.append_assoc]
      · rw [step, status]
  | fails status => exact .fails (by rw [step, status])

theorem parseFrom_stops (config : AppConfig) (arguments : List String) :
    Stops config arguments := by
  -- the options take one or two arguments off the front
  induction size : arguments.length using Nat.strong_induction_on generalizing config arguments with
  | _ size ih =>
  subst size
  cases arguments with
  | nil => exact .ends [] .nil rfl
  | cons argument rest =>
  have behind : ∀ {g front rest'}, Spells g front → argument :: rest = front ++ rest' →
      rest'.length < rest.length + 1 → Stops config (argument :: rest) := by
    intro g front rest' spells cut shorter
    rw [cut]
    exact (ih rest'.length shorter (g.set config) rest' rfl).behind spells
  by_cases help : argument = "--help" ∨ argument = "-h"
  · refine .help [] rest argument [] rfl .nil help ?_
    rw [parseFrom.eq_def]
    dsimp only
    rw [if_pos help]
  by_cases quiet : argument = "--quiet"
  · subst quiet
    exact behind .quiet rfl (Nat.lt_succ_self _)
  by_cases port : argument = "--port"
  · subst port
    cases rest with
    | nil => exact .fails rfl
    | cons text rest' =>
        cases parsed : parseUnsigned 16 text with
        | none => exact .fails (by simp [parseFrom, parsed, Parsed.failed])
        | some n =>
            rcases parseUnsigned_eq_some.mp parsed with ⟨decimal, small⟩
            rcases Nat.eq_zero_or_pos n with rfl | positive
            · exact .fails (by simp [parseFrom, parsed, Parsed.failed])
            · have same : (UInt16.ofNat n).toNat = n := UInt16.toNat_ofNat_of_lt' small
              exact behind (.port (n := UInt16.ofNat n) (by rwa [same]) (by omega)) rfl
                (by rw [List.length_cons]; omega)
  by_cases dataFile : argument = "--data-file"
  · subst dataFile
    cases rest with
    | nil => exact .fails rfl
    | cons path rest' =>
        by_cases blank : path = ""
        · subst blank
          exact .fails rfl
        · exact behind (.dataFile blank) rfl (by rw [List.length_cons]; omega)
  by_cases segment : argument = "--segment-bytes"
  · subst segment
    cases rest with
    | nil => exact .fails rfl
    | cons text rest' =>
        cases parsed : parseUnsigned 64 text with
        | none => exact .fails (by simp [parseFrom, parsed, Parsed.failed])
        | some n =>
            rcases parseUnsigned_eq_some.mp parsed with ⟨decimal, small⟩
            have same : (UInt64.ofNat n).toNat = n := UInt64.toNat_ofNat_of_lt' small
            exact behind (.segmentBytes (n := UInt64.ofNat n) (by rwa [same])) rfl (by rw [List.length_cons]; omega)
  by_cases sync : argument = "--sync-bytes"
  · subst sync
    cases rest with
    | nil => exact .fails rfl
    | cons text rest' =>
        cases parsed : parseUnsigned 64 text with
        | none => exact .fails (by simp [parseFrom, parsed, Parsed.failed])
        | some n =>
            rcases parseUnsigned_eq_some.mp parsed with ⟨decimal, small⟩
            have same : (UInt64.ofNat n).toNat = n := UInt64.toNat_ofNat_of_lt' small
            exact behind (.syncBytes (n := UInt64.ofNat n) (by rwa [same])) rfl (by rw [List.length_cons]; omega)
  · refine .fails ?_
    rw [parseFrom.eq_def]
    dsimp only
    rw [if_neg help, if_neg quiet, if_neg port, if_neg dataFile, if_neg segment, if_neg sync]
    rfl

/-- What the parser never lets through: a missing port or path. -/
theorem Splits.sound {arguments : List String} {gs : List Group} (splits : Splits arguments gs)
    (config : AppConfig) (port : config.port ≠ 0) (path : config.dataFilePath ≠ "") :
    (gs.foldl Group.set config).port ≠ 0 ∧ (gs.foldl Group.set config).dataFilePath ≠ "" := by
  induction splits generalizing config with
  | nil => exact ⟨port, path⟩
  | cons spells _ ih =>
      rw [List.foldl_cons]
      apply ih
      · cases spells with
        | @port _ n _ positive =>
            intro zero
            have none : n.toNat = 0 := congrArg UInt16.toNat (zero : n = 0)
            omega
        | quiet | dataFile | segmentBytes | syncBytes => exact port
      · cases spells with
        | dataFile nonempty => exact nonempty
        | quiet | port | segmentBytes | syncBytes => exact path

theorem validate_eq_none {config : AppConfig} (port : config.port ≠ 0)
    (path : config.dataFilePath ≠ "") : validate config = none ↔ config.Fits := by
  have filled : ¬ config.dataFilePath.isEmpty = true := by simpa using path
  rw [validate, if_neg port, if_neg filled]
  split
  · next small =>
      refine ⟨nofun, fun fits => absurd fits.least (by omega)⟩
  split
  · next ragged => exact ⟨nofun, fun fits => absurd (Nat.mod_eq_zero_of_dvd fits.whole) ragged⟩
  split
  · next long =>
      refine ⟨nofun, fun fits => ?_⟩
      rcases fits.sync with none | most
      · exact absurd (UInt64.toNat_inj.mp none) long.1
      · exact absurd (UInt64.lt_iff_toNat_lt.mp long.2) (by omega)
  · next small ragged long =>
      refine ⟨fun _ => ⟨by omega, Nat.dvd_of_mod_eq_zero (by simpa using ragged), ?_⟩, fun _ => rfl⟩
      by_cases none : config.syncEveryBytes = 0
      · exact Or.inl (congrArg UInt64.toNat none)
      · right
        have most : ¬ config.maxSegmentBytes < config.syncEveryBytes := fun more => long ⟨none, more⟩
        rw [UInt64.lt_iff_toNat_lt] at most
        omega

/-- The configuration is judged once all options are read. -/
theorem parseFrom_nil_status (config : AppConfig) : (parseFrom config []).status = .success ∧
    (parseFrom config []).config = config ∧ validate config = none ∨
    (parseFrom config []).status = .error ∧ validate config ≠ none := by
  rw [parseFrom]
  split
  · next message found => exact Or.inr ⟨rfl, by rw [found]; nofun⟩
  · next found => exact Or.inl ⟨rfl, rfl, found⟩

theorem Splits.judged {arguments : List String} {gs : List Group} (splits : Splits arguments gs) :
    (parseFrom {} arguments).status = .success ∧ (parseFrom {} arguments).config = configOf gs ∧
      (configOf gs).Fits ∨
    (parseFrom {} arguments).status = .error ∧ ¬ (configOf gs).Fits := by
  have read := parseFrom_splits splits {} []
  have sound := splits.sound {} (by decide) (by decide)
  rw [List.append_nil, foldl_set] at read
  rw [foldl_set] at sound
  rw [read, ← validate_eq_none sound.1 sound.2]
  exact parseFrom_nil_status (configOf gs)

/-- `FileStore` accepts what fits: `validateConfig` answers true at once. -/
theorem AppConfig.Fits.validateConfig {config : AppConfig} (fits : config.Fits) {w : World}
    (store : w.store.config = config.storage) (q : Proc Bool) (v : World) :
    Prog.Step World.exec Storage.validateConfig w q v ↔ q = .pure true ∧ v = w := by
  have small : ¬ w.store.config.maxSegmentBytes < kFrameSize := by
    rw [store]
    exact Nat.not_lt.mpr fits.least
  have whole : ¬ w.store.config.maxSegmentBytes % kFrameSize ≠ 0 := by
    rw [store]
    exact fun ragged => ragged (Nat.mod_eq_zero_of_dvd fits.whole)
  have short : ¬ (w.store.config.syncEveryBytes ≠ 0 ∧
      w.store.config.maxSegmentBytes < w.store.config.syncEveryBytes) := by
    rw [store]
    rintro ⟨some, more⟩
    change config.syncEveryBytes.toNat ≠ 0 at some
    change config.maxSegmentBytes.toNat < config.syncEveryBytes.toNat at more
    rcases fits.sync with none | most
    · exact some none
    · omega
  have answer : ∀ m, m = w.store → ((do
      if m.config.maxSegmentBytes < kFrameSize then
        return ← Storage.refuse (.cerr "[storage] segment size smaller than frame\n")
      if m.config.maxSegmentBytes % kFrameSize ≠ 0 then
        return ← Storage.refuse (.cerr "[storage] segment size must be a multiple of frame size\n")
      if m.config.syncEveryBytes ≠ 0 ∧ m.config.maxSegmentBytes < m.config.syncEveryBytes then
        return ← Storage.refuse (.cerr "[storage] sync interval exceeds segment size\n")
      return true) : Proc Bool) = .pure true := by
    rintro m rfl
    rw [if_neg small, if_neg whole, if_neg short]
    rfl
  constructor
  · intro step
    cases step with
    | act f k s => exact ⟨answer w.store rfl, rfl⟩
  · rintro ⟨rfl, rfl⟩
    rw [← answer v.store rfl]
    exact .act _ _ v

inductive Kind
  | quiet
  | port
  | dataFile
  | segmentBytes
  | syncBytes
  deriving DecidableEq, Repr

def Group.kind : Group → Kind
  | .quiet => .quiet
  | .port _ => .port
  | .dataFile _ => .dataFile
  | .segmentBytes _ => .segmentBytes
  | .syncBytes _ => .syncBytes

theorem filterMap_kind {α : Type} {option : Group → Option α} {kind : Kind}
    (only : ∀ g, g.kind ≠ kind → option g = none) (gs : List Group) :
    gs.filterMap option = (gs.filter (fun g => g.kind = kind)).filterMap option := by
  induction gs with
  | nil => rfl
  | cons g gs ih =>
      by_cases same : g.kind = kind
      · rw [List.filter_cons_of_pos (by simpa using same), List.filterMap_cons, List.filterMap_cons, ih]
      · rw [List.filter_cons_of_neg (by simpa using same), List.filterMap_cons, only g same, ih]

/-- Only the order among the occurrences of one option matters. -/
theorem configOf_congr {gs gs' : List Group}
    (same : ∀ kind, gs.filter (fun g => g.kind = kind) = gs'.filter (fun g => g.kind = kind)) :
    configOf gs = configOf gs' := by
  have last : ∀ {α : Type} (option : Group → Option α) (kind : Kind) (default : α),
      (∀ g, g.kind ≠ kind → option g = none) → lastOf option default gs = lastOf option default gs' := by
    intro α option kind default only
    rw [lastOf, lastOf, filterMap_kind only, same kind, ← filterMap_kind only]
  have quiet : ∀ gs : List Group, Group.quiet ∈ gs ↔
      gs.filter (fun g => g.kind = .quiet) ≠ [] := by
    intro gs
    rw [ne_eq, List.filter_eq_nil_iff]
    constructor
    · exact fun member none => none _ member (by decide)
    · intro some
      by_contra missing
      apply some
      intro g member
      cases g with
      | quiet => exact absurd member missing
      | port | dataFile | segmentBytes | syncBytes => simp [Group.kind]
  rw [configOf, configOf, last Group.port? .port, last Group.dataFile? .dataFile,
    last Group.segmentBytes? .segmentBytes, last Group.syncBytes? .syncBytes]
  · congr 1
    rw [decide_eq_decide, quiet, quiet, same]
  all_goals
    intro g other
    cases g <;> first | rfl | exact absurd rfl other

/-- The parser accepts its grammar and nothing else. -/
theorem parseArguments_grammar (argv : List String) :
    ((parseArguments argv {}).status = .success ↔
      ∃ gs, Splits argv.tail gs ∧ (configOf gs).Fits) ∧
    (∀ gs, Splits argv.tail gs → (configOf gs).Fits →
      (parseArguments argv {}).config = configOf gs ∧
      ∀ w q v, w.store.config = (configOf gs).storage →
        (Prog.Step World.exec Storage.validateConfig w q v ↔ q = .pure true ∧ v = w)) ∧
    ((parseArguments argv {}).status = .helpRequested ↔ ∃ front flag rest gs,
      argv.tail = front ++ flag :: rest ∧ Splits front gs ∧ (flag = "--help" ∨ flag = "-h")) ∧
    ((parseArguments argv {}).status = .error ↔
      (¬ ∃ gs, Splits argv.tail gs ∧ (configOf gs).Fits) ∧
      ¬ ∃ front flag rest gs,
        argv.tail = front ++ flag :: rest ∧ Splits front gs ∧ (flag = "--help" ∨ flag = "-h")) ∧
    (∀ gs argv' gs', Splits argv.tail gs → Splits argv'.tail gs' →
      (∀ kind, gs.filter (fun g => g.kind = kind) = gs'.filter (fun g => g.kind = kind)) →
      parseArguments argv' {} = parseArguments argv {}) := by
  rw [parseArguments]
  generalize argv.tail = arguments
  have success : (parseFrom {} arguments).status = .success ↔
      ∃ gs, Splits arguments gs ∧ (configOf gs).Fits := by
    constructor
    · intro status
      rcases parseFrom_stops {} arguments with ⟨gs, splits, _⟩ | ⟨_, _, _, _, _, _, _, other⟩ | other
      · rcases splits.judged with ⟨_, _, fits⟩ | ⟨other, _⟩
        · exact ⟨gs, splits, fits⟩
        · exact absurd (status.symm.trans other) nofun
      · exact absurd (status.symm.trans other) nofun
      · exact absurd (status.symm.trans other) nofun
    · rintro ⟨gs, splits, fits⟩
      rcases splits.judged with ⟨status, _⟩ | ⟨_, unfit⟩
      · exact status
      · exact absurd fits unfit
  have help : (parseFrom {} arguments).status = .helpRequested ↔ ∃ front flag rest gs,
      arguments = front ++ flag :: rest ∧ Splits front gs ∧ (flag = "--help" ∨ flag = "-h") := by
    constructor
    · intro status
      rcases parseFrom_stops {} arguments with ⟨gs, splits, _⟩ |
        ⟨front, rest, flag, gs, cut, splits, which, _⟩ | other
      · rcases splits.judged with ⟨other, _⟩ | ⟨other, _⟩
        · exact absurd (status.symm.trans other) nofun
        · exact absurd (status.symm.trans other) nofun
      · exact ⟨front, flag, rest, gs, cut, splits, which⟩
      · exact absurd (status.symm.trans other) nofun
    · rintro ⟨front, flag, rest, gs, rfl, splits, which⟩
      rw [parseFrom_splits splits, parseFrom.eq_def]
      dsimp only
      rw [if_pos which]
  refine ⟨success, ?_, help, ?_, ?_⟩
  · intro gs splits fits
    refine ⟨?_, fun w q v store => fits.validateConfig store q v⟩
    rcases splits.judged with ⟨_, config, _⟩ | ⟨_, unfit⟩
    · exact config
    · exact absurd fits unfit
  · rw [← success, ← help]
    cases (parseFrom {} arguments).status <;> simp
  · intro gs argv' gs' splits splits' same
    have read := parseFrom_splits splits {} []
    have read' := parseFrom_splits splits' {} []
    rw [List.append_nil, foldl_set] at read read'
    rw [parseArguments, read, read', configOf_congr same]

end TelemetryServer.Config
