import CoreC.Lib.Float64
import CoreC.Lib.GoInt
import CoreC.Lib.Yaml.Decode

/-! # The core data model

The types of `core/types.go`, `core/driver.go`, `core/transport.go`, `core/rule.go` and `core/derived.go` that the
modelled functions read. Every field of a configuration record is kept, since the reload compares whole records
(`reflect.DeepEqual`); a Go map inside a record is the list of its entries in key order, and a NaN carries the parse it
comes from. Durations are kept as texts; a finite floating-point number is the rational number it denotes. -/

namespace CoreC.Core.Types

open Lib.GoInt Lib.Float64 Lib.Yaml Lib.Yaml.Decode

/-- `core.DataType`, in the order of its `iota` codes. -/
inductive DataType where
  | bool | int8 | int16 | int32 | int64 | uint8 | uint16 | uint32 | uint64 | float32 | float64
  | string | bytes
  deriving DecidableEq, Repr

namespace DataType

def all : List DataType :=
  [bool, int8, int16, int32, int64, uint8, uint16, uint32, uint64, float32, float64, string, bytes]

/-- `dataTypeNames`. -/
def name : DataType → String
  | bool => "bool" | int8 => "int8" | int16 => "int16" | int32 => "int32" | int64 => "int64"
  | uint8 => "uint8" | uint16 => "uint16" | uint32 => "uint32" | uint64 => "uint64"
  | float32 => "float32" | float64 => "float64" | string => "string" | bytes => "bytes"

def intType? : DataType → Option IntType
  | int8 => some .int8 | int16 => some .int16 | int32 => some .int32 | int64 => some .int64
  | uint8 => some .uint8 | uint16 => some .uint16 | uint32 => some .uint32
  | uint64 => some .uint64
  | _ => none

end DataType

/-- `ParseDataType`: the data type of a name. -/
def parseDataType (s : String) : Option DataType := DataType.all.find? fun d => d.name = s

theorem parseDataType_name (d : DataType) : parseDataType d.name = some d := by
  cases d <;> decide

/-- The codes of `core.Quality` without a name. -/
abbrev OtherQuality : Type := { n : ℤ // IntType.int64.InRange n ∧ n ≠ 0 ∧ n ≠ 1 ∧ n ≠ 2 }

/-- `core.Quality`, an int with three named codes. -/
inductive Quality where
  | good | bad | uncertain
  | other (code : OtherQuality)
  deriving DecidableEq, Repr

/-- A Go value of type `any`, as far as values reach the modelled functions: what drivers produce
and what `encoding/json` decodes. -/
inductive GoValue where
  | nil
  | bool (b : Bool)
  | int (t : IntType) (v : ℤ)
  | float32 (q : ℚ)
  | float64 (q : ℚ)
  | string (s : String)
  | bytes (b : List UInt8)
  | slice (xs : List GoValue)
  | map (kvs : List (String × GoValue))
  deriving Repr

/-- The number that a value denotes. -/
def GoValue.number : GoValue → Option ℚ
  | .int _ v => some v
  | .float32 q => some q
  | .float64 q => some q
  | _ => none

/-- `util.ToFloat64OK`: the number as a float64; `none` for what is not a number. -/
def toFloat64OK : GoValue → Option ℚ
  | .float64 q => some q
  | .float32 q => some q
  | .int _ v => some (roundInt v)
  | _ => none

/-- `core.TagValue`: a raw value read from a device. -/
structure TagValue where
  tag : String
  value : GoValue
  type : DataType
  quality : Quality

/-- `core.TagValue` with its `Error`, as a driver returns it. -/
structure TagResult extends TagValue where
  error : Option String

def TagResult.bad (tag error : String) : TagResult := ⟨⟨tag, .nil, .bool, .bad⟩, some error⟩

def TagResult.good (tag : String) (value : GoValue) (type : DataType) : TagResult := ⟨⟨tag, value, type, .good⟩, none⟩

/-- `core.DataPoint`. The timestamp is in nanoseconds since the Unix epoch. -/
structure DataPoint where
  driver : String
  device : String
  group : String
  tag : String
  value : GoValue
  type : DataType
  quality : Quality
  timestamp : ℤ
  metadata : List (String × String)
  isStale : Bool

/-- `core.WriteCommand`. -/
structure WriteCommand where
  driver : String := ""
  device : String := ""
  tag : String := ""
  value : GoValue := .nil
  type : DataType := .bool
  source : String := ""
  remote : String := ""
  raw : Bool := false

/-- `core.WriteResult`. -/
structure WriteResult where
  success : Bool
  error : String := ""
  deriving DecidableEq, Repr

/-- `core.WriteAuditEntry`; times in nanoseconds since the Unix epoch. -/
structure WriteAuditEntry where
  timestamp : ℤ
  driver : String
  device : String
  tag : String
  value : GoValue
  type : DataType
  success : Bool
  error : String
  source : String
  remote : String
  raw : Bool

/-- `core.DeadLetterEntry`. -/
structure DeadLetterEntry where
  command : WriteCommand
  error : String
  failedAt : ℤ
  attempts : ℤ := 0
  transport : String := ""

/-- `core.TagConfig`. -/
structure TagConfig where
  name : String
  address : String
  type : String
  group : String := ""
  interval : String := ""
  scale : GoFloat := 0
  offset : GoFloat := 0
  deadBand : GoFloat := 0
  enforceInterval : String := ""
  readTimeout : String := ""
  protect : String := ""
  triggerGroup : String := ""
  triggers : String := ""
  deriving DecidableEq, Repr

/-- `core.DriverConfig`. -/
structure DriverConfig where
  name : String
  type : String
  settings : GoMap := ∅
  tags : List TagConfig := []
  tagsFile : String := ""
  tagsInterval : String := ""
  deriving DecidableEq, Repr

/-- `core.TransportConfig`. -/
structure TransportConfig where
  name : String
  type : String
  settings : GoMap := ∅
  batchSize : ℤ := 0
  flushInterval : String := ""
  retryCount : ℤ := 0
  bufferSize : ℤ := 0
  fallback : String := ""
  deriving DecidableEq, Repr

/-- `core.TransformConfig`. -/
structure TransformConfig where
  expression : String
  tagRename : String := ""
  deriving DecidableEq, Repr

/-- `core.RuleConfig`. -/
structure RuleConfig where
  name : String
  match_ : String
  action : String
  target : String := ""
  targets : List String := []
  priority : ℤ := 0
  transform : Option TransformConfig := none
  continue_ : Bool := false
  deriving DecidableEq, Repr

/-- `core.DerivedTagConfig`. Its type is the integer code: `UnmarshalYAML` accepts codes without a name. -/
structure DerivedTagConfig where
  name : String
  expr : String
  type : ℤ
  group : String := ""
  interval : String
  unit : String := ""
  onMissing : String := ""
  staleGuard : String := ""
  deriving DecidableEq, Repr

/-- `core.Config`: the sections a reload applies to a running engine. -/
structure Config where
  drivers : List DriverConfig := []
  transports : List TransportConfig := []
  rules : List RuleConfig := []
  derivedTags : List DerivedTagConfig := []
  deriving DecidableEq, Repr

/-! ### The sections that only a restart applies -/

/-- `core.NodeConfig`. -/
structure NodeConfig where
  id : String := ""
  role : String := ""
  subscribe : List String := []
  topicPrefix : String := ""
  deriving DecidableEq, Repr

/-- `core.APIConfig`. -/
structure APIConfig where
  listen : String := ""
  secret : String := ""
  tlsCert : String := ""
  tlsKey : String := ""
  allowedOrigins : List String := []
  rateLimitPerSec : ℤ := 0
  readHeaderTimeout : String := ""
  readTimeout : String := ""
  writeTimeout : String := ""
  idleTimeout : String := ""
  pprofDisabled : Bool := false
  metricsAddr : String := ""
  pprofAddr : String := ""
  deriving DecidableEq, Repr

/-- `core.EngineConfig`. -/
structure EngineConfig where
  dataBusSize : ℤ := 0
  workers : ℤ := 0
  shutdownTimeout : String := ""
  errorThrottleWindow : String := ""
  defaultTagInterval : String := ""
  onBadQuality : String := ""
  staleThreshold : String := ""
  writeRetryCount : ℤ := 0
  commandConcurrency : ℤ := 0
  highPriorityWorkers : ℤ := 0
  deadLetterPath : String := ""
  writeMinInterval : String := ""
  writeAuditPath : String := ""
  alertActiveWindow : String := ""
  deriving DecidableEq, Repr

structure BufferConfig where
  enabled : Bool := false
  maxSize : ℤ := 0
  path : String := ""
  deriving DecidableEq, Repr

/-- `core.GlobalConfig`. -/
structure GlobalConfig where
  logLevel : String := ""
  logFormat : String := ""
  api : APIConfig := {}
  engine : EngineConfig := {}
  buffer : BufferConfig := {}
  deriving DecidableEq, Repr

structure RuleProviderConfig where
  name : String
  type : String
  path : String
  interval : String := ""
  deriving DecidableEq, Repr

/-- `core.Config` with all its sections. -/
structure FullConfig extends Config where
  node : NodeConfig := {}
  global : GlobalConfig := {}
  ruleProviders : List RuleProviderConfig := []
  ruleGroups : Dict (List RuleConfig) := ∅
  deriving DecidableEq, Repr

end CoreC.Core.Types
