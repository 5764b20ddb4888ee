import TelemetryServer.Protocol.TelemetryCodec

/-! The command line. An argument is the string of its characters, byte by byte. -/

namespace TelemetryServer.Config

open Protocol

structure AppConfig where
  port : UInt16 := 9000
  dataFilePath : String := "telemetry.bin"
  maxSegmentBytes : UInt64 := 64 * 1024 * 1024
  syncEveryBytes : UInt64 := 1 * 1024 * 1024
  quiet : Bool := false
  deriving DecidableEq, Repr

inductive ParseStatus
  | success
  | helpRequested
  | error
  deriving DecidableEq, Repr

inductive Errc
  | none
  | invalidArgument
  | resultOutOfRange
  deriving DecidableEq, Repr

/-- What `std::from_chars` answers; `rest` starts at its `ptr`. -/
structure FromCharsResult where
  rest : List Char
  error : Errc
  value : Nat
  deriving DecidableEq, Repr

def digitValue (c : Char) : Nat := c.toNat - '0'.toNat

/-- `std::from_chars` for an unsigned type: the longest run of decimal digits, with no sign, no
blank and no base in front. A value that does not fit leaves the result as it was. -/
def fromChars (width : Nat) (text : List Char) : FromCharsResult :=
  let digits := text.takeWhile Char.isDigit
  let rest := text.dropWhile Char.isDigit
  if digits.isEmpty then { rest := text, error := .invalidArgument, value := 0 }
  else
    let value := digits.foldl (fun n c => n * 10 + digitValue c) 0
    if value < 2 ^ width then { rest := rest, error := .none, value := value }
    else { rest := rest, error := .resultOutOfRange, value := 0 }

def parseUnsigned (width : Nat) (text : String) : Option Nat :=
  if text.isEmpty then none
  else
    let parsed := fromChars width text.toList
    if parsed.error ≠ .none ∨ parsed.rest ≠ [] then none else some parsed.value

def validate (config : AppConfig) : Option String :=
  if config.port = 0 then some "port must be between 1 and 65535\n"
  else if config.dataFilePath.isEmpty then some "data file path cannot be empty\n"
  else if config.maxSegmentBytes.toNat < kFrameSize then
    some ("segment size must be at least " ++ toString kFrameSize ++ " bytes\n")
  else if config.maxSegmentBytes.toNat % kFrameSize ≠ 0 then
    some ("segment size must be a multiple of " ++ toString kFrameSize ++ " bytes\n")
  else if config.syncEveryBytes ≠ 0 ∧ config.maxSegmentBytes < config.syncEveryBytes then
    some "sync interval cannot exceed segment size\n"
  else none

/-- What `parseArguments` returns, leaves in `config` and writes to `errorOutput`. -/
structure Parsed where
  status : ParseStatus
  config : AppConfig
  errorOutput : String
  deriving DecidableEq, Repr

def Parsed.failed (config : AppConfig) (errorOutput : String) : Parsed :=
  { status := .error, config := config, errorOutput := errorOutput }

def missingValue (argument : String) : String := "missing value for " ++ argument ++ "\n"

def parseFrom (config : AppConfig) : List String → Parsed
  | [] => match validate config with
      | some message => .failed config message
      | none => { status := .success, config := config, errorOutput := "" }
  | argument :: rest =>
      if argument = "--help" ∨ argument = "-h" then
        { status := .helpRequested, config := config, errorOutput := "" }
      else if argument = "--quiet" then parseFrom { config with quiet := true } rest
      else if argument = "--port" then
        match rest with
        | [] => .failed config (missingValue argument)
        | value :: rest => match parseUnsigned 16 value with
            | none => .failed config ("invalid port: " ++ value ++ "\n")
            | some port =>
                if port = 0 then
                  .failed { config with port := 0 } ("invalid port: " ++ value ++ "\n")
                else parseFrom { config with port := UInt16.ofNat port } rest
      else if argument = "--data-file" then
        match rest with
        | [] => .failed config (missingValue argument ++ "invalid data file path\n")
        | value :: rest =>
            if value.isEmpty then .failed config "invalid data file path\n"
            else parseFrom { config with dataFilePath := value } rest
      else if argument = "--segment-bytes" then
        match rest with
        | [] => .failed config (missingValue argument ++ "invalid segment size\n")
        | value :: rest => match parseUnsigned 64 value with
            | none => .failed config "invalid segment size\n"
            | some bytes => parseFrom { config with maxSegmentBytes := UInt64.ofNat bytes } rest
      else if argument = "--sync-bytes" then
        match rest with
        | [] => .failed config (missingValue argument ++ "invalid sync interval\n")
        | value :: rest => match parseUnsigned 64 value with
            | none => .failed config "invalid sync interval\n"
            | some bytes => parseFrom { config with syncEveryBytes := UInt64.ofNat bytes } rest
      else .failed config ("unknown argument: " ++ argument ++ "\n")

/-- `argv` starts with the name of the program. -/
def parseArguments (argv : List String) (config : AppConfig) : Parsed := parseFrom config argv.tail

end TelemetryServer.Config
