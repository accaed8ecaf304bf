import Interchain.Round.Aggregation
import Interchain.Text.Json

/-!
# Settings of a node

The settings are read from a JSON text or from named variables, either of which may leave
out any of them.
-/

namespace Interchain

/-- Settings of a node. -/
structure NodeSettings where
  /-- Whether others are served. -/
  enabled : Bool := false
  /-- The quorum to aim for, in hundredths. -/
  quorum : UInt64 := 67
  maxConcurrency : UInt64 := 32
  retryDelay : UInt64 := 100
  roundTimeout : UInt64 := 30000
  maxAttempts : UInt64 := 100
  /-- The number of signatures that are kept. -/
  cacheSize : UInt64 := 500
deriving DecidableEq

namespace NodeSettings

/-- The written names of the settings. -/
def names : List String :=
  ["warp-api-enabled", "quorum-numerator", "max-concurrency", "retry-delay-ms",
    "round-timeout-ms", "max-attempts", "signature-cache-size"]

/-! ### As structured text -/

/-- The written values of the settings. -/
def values (s : NodeSettings) : List String :=
  [toString s.enabled, toString s.quorum.toNat, toString s.maxConcurrency.toNat,
    toString s.retryDelay.toNat, toString s.roundTimeout.toNat, toString s.maxAttempts.toNat,
    toString s.cacheSize.toNat]

/-- The settings as a JSON text. -/
def toJson (s : NodeSettings) : String :=
  let member (name value : String) : String := "\"" ++ name ++ "\":" ++ value
  "\x7b" ++ ",".intercalate (List.zipWith member names s.values) ++ "\x7d"

/-- A number, or a default where there is no value. -/
def numberOr (standard : UInt64) (v : Option JsonValue) : Option UInt64 :=
  match v with
  | none => some standard
  | some v => UInt64.ofNat <$> v.natBelow? UInt64.size

/-- A truth value, or a default where there is no value. -/
def boolOr (standard : Bool) (v : Option JsonValue) : Option Bool :=
  match v with
  | none => some standard
  | some v => v.bool?

/-- The settings that a JSON text gives. -/
def ofJson (text : String) : Option NodeSettings := do
  let v ← JsonValue.parse text
  let d : NodeSettings := {}
  let [enabled, quorum, concurrency, delay, timeout, attempts, cache] ← v.fields? names | none
  return {
    enabled := ← boolOr d.enabled enabled
    quorum := ← numberOr d.quorum quorum
    maxConcurrency := ← numberOr d.maxConcurrency concurrency
    retryDelay := ← numberOr d.retryDelay delay
    roundTimeout := ← numberOr d.roundTimeout timeout
    maxAttempts := ← numberOr d.maxAttempts attempts
    cacheSize := ← numberOr d.cacheSize cache }

/-! ### As variables -/

/-- The text with ASCII letters in lower case. -/
def lowerCase (s : String) : String := s.map Char.toLower

/-- Whether a text says yes. -/
def isYes (s : String) : Bool := lowerCase s = "true" || s = "1"

/-- The number that a text denotes, with or without a plus sign. -/
def number? (s : String) : Option UInt64 :=
  let ds :=
    match s.toList with
    | '+' :: rest => rest
    | cs => cs
  let n := ds.foldl (fun acc c => acc * 10 + (c.toNat - 48)) 0
  if !ds.isEmpty && ds.all Char.isDigit && n < UInt64.size then some (.ofNat n) else none

/-- The settings that variables give. -/
def ofVariables (lookup : String → Option String) : NodeSettings :=
  let d : NodeSettings := {}
  let number (name : String) (standard : UInt64) : UInt64 :=
    ((lookup name).bind number?).getD standard
  { enabled := ((lookup "WARP_API_ENABLED").map isYes).getD d.enabled
    quorum := number "WARP_QUORUM_NUM" d.quorum
    maxConcurrency := number "WARP_MAX_CONCURRENCY" d.maxConcurrency
    retryDelay := number "WARP_RETRY_DELAY_MS" d.retryDelay
    roundTimeout := number "WARP_ROUND_TIMEOUT_MS" d.roundTimeout
    maxAttempts := number "WARP_MAX_ATTEMPTS" d.maxAttempts
    cacheSize := number "WARP_SIGNATURE_CACHE_SIZE" d.cacheSize }

/-! ### Use -/

/-- Whether a percentage may be asked of others. -/
def checkPercent (percent : UInt64) : Except MessageError Unit :=
  if Quorum.minPercent ≤ percent ∧ percent ≤ 100 then .ok ()
  else .error (.invalidQuorum percent.toNat 100)

/-- The first reason not to use the settings. -/
def validate (s : NodeSettings) : Except MessageError Unit := do
  checkPercent s.quorum
  if s.maxConcurrency = 0 then throw (.configuration "max-concurrency must be positive")
  if s.maxAttempts = 0 then throw (.configuration "max-attempts must be positive")
  if s.roundTimeout = 0 then throw (.configuration "round-timeout-ms must be positive")
  if s.cacheSize = 0 then throw (.configuration "signature-cache-size must be positive")

/-- How rounds for a percentage are conducted, where `0` stands for that of the settings. -/
def roundConfig (s : NodeSettings) (percent : UInt64) : Except MessageError RoundConfig := do
  let percent := if percent = 0 then s.quorum else percent
  checkPercent percent
  return {
    quorum := ← Quorum.percent percent
    maxConcurrency := s.maxConcurrency.toNat
    retryDelay := s.retryDelay.toNat
    roundTimeout := s.roundTimeout.toNat
    maxAttempts := s.maxAttempts.toNat }

end NodeSettings

end Interchain
