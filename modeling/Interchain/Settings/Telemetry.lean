import Interchain.Settings.Node

/-!
# Settings of the telemetry

How a service reports on itself, read from named variables.
-/

namespace Interchain

/-- How a service reports on itself. -/
structure TelemetrySettings where
  service : String
  /-- The least important level of what is reported. -/
  level : String
  console : Bool
  /-- Whether reports are JSON texts. -/
  json : Bool
  network : String
deriving DecidableEq

namespace TelemetrySettings

/-- The settings that variables give.  In a container reports are JSON texts unless a
variable says otherwise. -/
def ofVariables (lookup : String → Option String) : TelemetrySettings :=
  let contained :=
    (lookup "KUBERNETES_SERVICE_HOST").isSome || (lookup "DOCKER_CONTAINER").isSome
  let isNo (s : String) : Bool := NodeSettings.lowerCase s = "false" || s = "0"
  { service := (lookup "WARP_SERVICE_NAME").getD "warp-relay"
    level := (lookup "WARP_LOG_LEVEL" <|> lookup "RUST_LOG").getD "info"
    console := ((lookup "WARP_CONSOLE_OUTPUT").map (!isNo ·)).getD true
    json := ((lookup "WARP_JSON_LOGS").map NodeSettings.isYes).getD contained
    network := (lookup "WARP_NETWORK").getD "local" }

/-- The settings of a component of the service. -/
def forComponent (s : TelemetrySettings) (component : String) : TelemetrySettings :=
  { s with service := s!"warp-{component}" }

end TelemetrySettings

end Interchain
