import Mathlib
import MpRpc.Toml.Form

/-!
# Config — configuration files

An option is declared by an option type, which has its default value, its check and the
texts of its errors. `toml::from` is specialized for the option, for the two enumerations
and for each record of the configuration; the last are loops over a table with one
branch for each key. `load` translates what the parser and these functions throw.
-/

namespace MpRpc.Config

open Toml

/-! ## Options -/

/-- What the static members of an `OptionType` say. -/
structure OptionType (α : Type) where
  name : String
  description : String
  defaultValue : α
  validate : α → Bool
  validate_defaultValue : validate defaultValue = true

/-- `mprpc::config::option`: its value has passed the check. -/
structure ConfigOption {α : Type} (T : OptionType α) where
  value : α
  valid : T.validate value = true
deriving DecidableEq

namespace ConfigOption

variable {α : Type} (T : OptionType α)

/-- The default constructor. -/
def ofDefault : ConfigOption T := ⟨T.defaultValue, T.validate_defaultValue⟩

/-- The text of both errors about a value that does not pass. -/
def invalidValue : String := "invalid value for " ++ T.name ++ ", " ++ T.description

/-- `operator=` -/
def assign (value : α) : Except Exception (ConfigOption T) :=
  if h : T.validate value = true then .ok ⟨value, h⟩
  else .error (.exception (.of .invalidConfigValue (invalidValue T)))

/-- `toml::from<option<OptionType>>::from_toml` -/
def fromToml [Get α] (value : Value) : Except Exception (ConfigOption T) := do
  let converted ← get value
  if !T.validate converted then .error (.runtimeError (invalidValue T) "invalid value")
  else assign T converted

instance [Get α] : Get (ConfigOption T) where
  get := fromToml T

/-- The assignment after the check does not throw. -/
theorem get_eq_ok_iff [Get α] {v : Value} {o : ConfigOption T} :
    get v = .ok o ↔ get v = .ok o.value := by
  show fromToml T v = .ok o ↔ _
  rw [fromToml, Fallible.bind_eq_ok_iff]
  constructor
  · rintro ⟨x, hx, h⟩
    cases hvalid : T.validate x with
    | false => simp [hvalid] at h
    | true =>
      simp only [hvalid, assign] at h
      cases h
      exact hx
  · intro h
    refine ⟨o.value, h, ?_⟩
    simp [assign, o.valid]

end ConfigOption

/-! ## Option types -/

/-- `compression_type` -/
inductive CompressionType where
  | none
  | zstd
deriving DecidableEq, Repr

/-- `toml::from<compression_type>::from_toml` -/
def CompressionType.fromToml (value : Value) : Except Exception CompressionType := do
  let str ← value.asString
  if str = "none" then .ok .none
  else if str = "zstd" then .ok .zstd
  else .error (.runtimeError "invalid value for type, compression type (none, zstd)"
    "invalid type")

theorem CompressionType.fromToml_eq_ok_iff {v : Value} {type : CompressionType} :
    fromToml v = .ok type ↔ ∃ s, v = .string s ∧
      (s = "none" ∧ type = .none ∨ s = "zstd" ∧ type = .zstd) := by
  rw [fromToml, Fallible.bind_eq_ok_iff]
  simp only [Value.asString_eq_ok]
  refine exists_congr fun s => and_congr_right fun _ => ?_
  split_ifs <;> grind

instance : Get CompressionType where
  get := CompressionType.fromToml

/-- `compression_type_type` -/
def compressionTypeType : OptionType CompressionType where
  name := "type"
  description := "compression type (none, zstd)"
  defaultValue := .none
  validate value := value = .none || value = .zstd
  validate_defaultValue := rfl

/-- `ZSTD_minCLevel`: `-ZSTD_TARGETLENGTH_MAX`, which is the size of a block -/
def minCLevel : Int32 := -131072

/-- `ZSTD_maxCLevel` -/
def maxCLevel : Int32 := 22

def validateZstdCompressionLevel (level : Int32) : Bool :=
  minCLevel ≤ level && level ≤ maxCLevel

/-- `zstd_compression_level_type` -/
def zstdCompressionLevelType : OptionType Int32 where
  name := "zstd_compression_level"
  description := "compression levels in zstd library"
  defaultValue := 3
  validate value := validateZstdCompressionLevel value
  validate_defaultValue := rfl

/-- `host_type` -/
def hostType : OptionType String where
  name := "host"
  description := "host address (IP address for server, common names for clients)"
  defaultValue := "127.0.0.1"
  validate _ := true
  validate_defaultValue := rfl

/-- `port_type` -/
def portType : OptionType UInt16 where
  name := "port"
  description := "port number"
  defaultValue := 3780
  validate _ := true
  validate_defaultValue := rfl

/-- `streaming_min_buf_size_type` -/
def streamingMinBufSizeType : OptionType UInt64 where
  name := "streaming_min_buf_size"
  description := "minimum buffer size in streaming parser [bytes]"
  defaultValue := 1024
  validate value := 0 < value
  validate_defaultValue := rfl

/-- `datagram_buf_size_type`; the default is the limit of UDP. -/
def datagramBufSizeType : OptionType UInt64 where
  name := "datagram_buf_size"
  description := "buffer size in datagrams"
  defaultValue := 65527
  validate value := 0 < value
  validate_defaultValue := rfl

/-- `num_threads_type` -/
def numThreadsType : OptionType UInt64 where
  name := "num_threads"
  description := "number of threads"
  defaultValue := 2
  validate value := 0 < value
  validate_defaultValue := rfl

/-- `sync_request_timeout_ms_type` -/
def syncRequestTimeoutMsType : OptionType UInt32 where
  name := "sync_request_timeout_ms"
  description := "timeout of synchronous requests [ms]"
  defaultValue := 3000
  validate value := 0 < value
  validate_defaultValue := rfl

/-- `transport_type` -/
inductive TransportType where
  | tcp
  | udp
deriving DecidableEq, Repr

/-- `toml::from<transport_type>::from_toml` -/
def TransportType.fromToml (value : Value) : Except Exception TransportType := do
  let str ← value.asString
  if str = "tcp" ∨ str = "TCP" then .ok .tcp
  else if str = "udp" ∨ str = "UDP" then .ok .udp
  else .error (.runtimeError "invalid value for transport type (TCP, UDP)" "invalid type")

theorem TransportType.fromToml_eq_ok_iff {v : Value} {type : TransportType} :
    fromToml v = .ok type ↔ ∃ s, v = .string s ∧
      ((s = "tcp" ∨ s = "TCP") ∧ type = .tcp ∨ (s = "udp" ∨ s = "UDP") ∧ type = .udp) := by
  rw [fromToml, Fallible.bind_eq_ok_iff]
  simp only [Value.asString_eq_ok]
  refine exists_congr fun s => and_congr_right fun _ => ?_
  split_ifs <;> grind

instance : Get TransportType where
  get := TransportType.fromToml

/-- `connector_type_type` -/
def connectorTypeType : OptionType TransportType where
  name := "connector_type"
  description := "connector type (TCP, UDP)"
  defaultValue := .tcp
  validate value := value = .tcp || value = .udp
  validate_defaultValue := rfl

/-! ## Records -/

/-- `compression_config` -/
structure CompressionConfig where
  type : ConfigOption compressionTypeType := .ofDefault _
  zstdCompressionLevel : ConfigOption zstdCompressionLevelType := .ofDefault _
deriving DecidableEq

/-- `transport_common_config` -/
structure TransportCommonConfig where
  compression : CompressionConfig := {}
deriving DecidableEq

/-- `ip_common_config` -/
structure IpCommonConfig extends TransportCommonConfig where
  host : ConfigOption hostType := .ofDefault _
  port : ConfigOption portType := .ofDefault _
deriving DecidableEq

/-- `stream_socket_config` -/
structure StreamSocketConfig where
  streamingMinBufSize : ConfigOption streamingMinBufSizeType := .ofDefault _
deriving DecidableEq

/-- `udp_common_config` -/
structure UdpCommonConfig where
  datagramBufSize : ConfigOption datagramBufSizeType := .ofDefault _
deriving DecidableEq

/-- `tcp_acceptor_config` -/
structure TcpAcceptorConfig extends StreamSocketConfig, IpCommonConfig
deriving DecidableEq

/-- `tcp_connector_config` -/
structure TcpConnectorConfig extends StreamSocketConfig, IpCommonConfig
deriving DecidableEq

/-- `udp_acceptor_config` -/
structure UdpAcceptorConfig extends UdpCommonConfig, IpCommonConfig
deriving DecidableEq

/-- `udp_connector_config` -/
structure UdpConnectorConfig extends UdpCommonConfig, IpCommonConfig
deriving DecidableEq

/-- `server_config` -/
structure ServerConfig where
  numThreads : ConfigOption numThreadsType := .ofDefault _
  tcpAcceptors : List TcpAcceptorConfig := []
  udpAcceptors : List UdpAcceptorConfig := []
deriving DecidableEq

/-- `client_config` -/
structure ClientConfig where
  numThreads : ConfigOption numThreadsType := .ofDefault _
  syncRequestTimeoutMs : ConfigOption syncRequestTimeoutMsType := .ofDefault _
  connectorType : ConfigOption connectorTypeType := .ofDefault _
  tcpConnector : TcpConnectorConfig := {}
  udpConnector : UdpConnectorConfig := {}
deriving DecidableEq

/-- `mprpc_config` -/
structure MprpcConfig where
  client : ClientConfig := {}
  server : ServerConfig := {}
deriving DecidableEq

/-! ## Reading them -/

/-- The last branch of each loop. -/
def invalidKey (key : String) : Exception :=
  .runtimeError ("invalid key " ++ key) "invalid key exists"

/-- `toml::from<compression_config>::from_toml` -/
def CompressionConfig.fromToml : Value → Except Exception CompressionConfig :=
  readTable invalidKey [
    ⟨"type", get, fun x config => { config with type := x }⟩,
    ⟨"zstd_compression_level", get, fun x config => { config with zstdCompressionLevel := x }⟩] {}

instance : Get CompressionConfig where
  get := CompressionConfig.fromToml

/-- `toml::from<tcp_acceptor_config>::from_toml` -/
def TcpAcceptorConfig.fromToml : Value → Except Exception TcpAcceptorConfig :=
  readTable invalidKey [
    ⟨"compression", get, fun x config => { config with compression := x }⟩,
    ⟨"host", get, fun x config => { config with host := x }⟩,
    ⟨"port", get, fun x config => { config with port := x }⟩,
    ⟨"streaming_min_buf_size", get, fun x config => { config with streamingMinBufSize := x }⟩] {}

instance : Get TcpAcceptorConfig where
  get := TcpAcceptorConfig.fromToml

/-- `toml::from<tcp_connector_config>::from_toml` -/
def TcpConnectorConfig.fromToml : Value → Except Exception TcpConnectorConfig :=
  readTable invalidKey [
    ⟨"compression", get, fun x config => { config with compression := x }⟩,
    ⟨"host", get, fun x config => { config with host := x }⟩,
    ⟨"port", get, fun x config => { config with port := x }⟩,
    ⟨"streaming_min_buf_size", get, fun x config => { config with streamingMinBufSize := x }⟩] {}

instance : Get TcpConnectorConfig where
  get := TcpConnectorConfig.fromToml

/-- `toml::from<udp_acceptor_config>::from_toml` -/
def UdpAcceptorConfig.fromToml : Value → Except Exception UdpAcceptorConfig :=
  readTable invalidKey [
    ⟨"compression", get, fun x config => { config with compression := x }⟩,
    ⟨"host", get, fun x config => { config with host := x }⟩,
    ⟨"port", get, fun x config => { config with port := x }⟩,
    ⟨"datagram_buf_size", get, fun x config => { config with datagramBufSize := x }⟩] {}

instance : Get UdpAcceptorConfig where
  get := UdpAcceptorConfig.fromToml

/-- `toml::from<udp_connector_config>::from_toml` -/
def UdpConnectorConfig.fromToml : Value → Except Exception UdpConnectorConfig :=
  readTable invalidKey [
    ⟨"compression", get, fun x config => { config with compression := x }⟩,
    ⟨"host", get, fun x config => { config with host := x }⟩,
    ⟨"port", get, fun x config => { config with port := x }⟩,
    ⟨"datagram_buf_size", get, fun x config => { config with datagramBufSize := x }⟩] {}

instance : Get UdpConnectorConfig where
  get := UdpConnectorConfig.fromToml

/-- `toml::from<server_config>::from_toml` -/
def ServerConfig.fromToml : Value → Except Exception ServerConfig :=
  readTable invalidKey [
    ⟨"num_threads", get, fun x config => { config with numThreads := x }⟩,
    ⟨"tcp_acceptors", get, fun x config => { config with tcpAcceptors := x }⟩,
    ⟨"udp_acceptors", get, fun x config => { config with udpAcceptors := x }⟩] {}

instance : Get ServerConfig where
  get := ServerConfig.fromToml

/-- `toml::from<client_config>::from_toml` -/
def ClientConfig.fromToml : Value → Except Exception ClientConfig :=
  readTable invalidKey [
    ⟨"num_threads", get, fun x config => { config with numThreads := x }⟩,
    ⟨"sync_request_timeout_ms", get, fun x config => { config with syncRequestTimeoutMs := x }⟩,
    ⟨"connector_type", get, fun x config => { config with connectorType := x }⟩,
    ⟨"tcp_connector", get, fun x config => { config with tcpConnector := x }⟩,
    ⟨"udp_connector", get, fun x config => { config with udpConnector := x }⟩] {}

instance : Get ClientConfig where
  get := ClientConfig.fromToml

/-- `toml::from<mprpc_config>::from_toml` -/
def MprpcConfig.fromToml : Value → Except Exception MprpcConfig :=
  readTable invalidKey [
    ⟨"client", get, fun x config => { config with client := x }⟩,
    ⟨"server", get, fun x config => { config with server := x }⟩] {}

instance : Get MprpcConfig where
  get := MprpcConfig.fromToml

/-- `load`, from what `toml::parse` makes of the file; `what` gives the texts of the
exceptions. An `mprpc::exception` is of neither class that is caught. -/
def load (what : Exception → String) (parsed : Except Exception Document) :
    Except StdException MprpcConfig :=
  let result : Except Exception MprpcConfig := do
    let data ← parsed
    get data.value
  match result with
  | .ok config => .ok config
  | .error (.exception info) => .error (.exception info)
  | .error e => .error (.exception (.of .configParseError (what e)))

/-! ## What is thrown -/

/-- The exception is a `toml::exception` or a `std::runtime_error`. -/
def Caught : Exception → Prop
  | .exception _ => False
  | _ => True

/-- The conversion throws exceptions of the two classes only. -/
class GetCaught (α : Type) [Get α] : Prop where
  caught (v : Value) (e : Exception) : (get v : Except Exception α) = .error e → Caught e

theorem caught_asInteger {v : Value} {e : Exception} (h : v.asInteger = .error e) :
    Caught e := by
  cases v <;> cases h <;> trivial

theorem caught_asString {v : Value} {e : Exception} (h : v.asString = .error e) :
    Caught e := by
  cases v <;> cases h <;> trivial

theorem caught_asArray {v : Value} {e : Exception} (h : v.asArray = .error e) :
    Caught e := by
  cases v <;> cases h <;> trivial

theorem caught_asTable {v : Value} {e : Exception} (h : v.asTable = .error e) :
    Caught e := by
  cases v <;> cases h <;> trivial

instance {α : Type} [Integral α] : GetCaught α where
  caught v e h := by
    refine caught_asInteger (v := v) ?_
    cases hi : v.asInteger with
    | error e' =>
      have h : (Integral.staticCast <$> v.asInteger : Except Exception α) = .error e := h
      rw [hi] at h
      cases h
      rfl
    | ok i =>
      have h : (Integral.staticCast <$> v.asInteger : Except Exception α) = .error e := h
      rw [hi] at h
      cases h

instance : GetCaught String where
  caught _ _ := caught_asString

instance {α : Type} [Get α] [GetCaught α] : GetCaught (List α) where
  caught v e h := by
    rcases bind_eq_error_iff.mp h with h | ⟨elements, -, h⟩
    · exact caught_asArray h
    · exact mapM_error GetCaught.caught h

instance : GetCaught CompressionType where
  caught v e h := by
    rcases bind_eq_error_iff.mp h with h | ⟨s, -, h⟩
    · exact caught_asString h
    · split_ifs at h
      cases h
      trivial

instance : GetCaught TransportType where
  caught v e h := by
    rcases bind_eq_error_iff.mp h with h | ⟨s, -, h⟩
    · exact caught_asString h
    · split_ifs at h
      cases h
      trivial

/-- The check is made before the assignment, whose own check is passed then. -/
instance {α : Type} [Get α] [GetCaught α] (T : OptionType α) : GetCaught (ConfigOption T) where
  caught v e h := by
    rcases bind_eq_error_iff.mp h with h | ⟨x, -, h⟩
    · exact GetCaught.caught v e h
    · cases hvalid : T.validate x with
      | false =>
        simp only [hvalid, Bool.not_false, if_true] at h
        cases h
        trivial
      | true => simp [hvalid, ConfigOption.assign] at h

/-- Each branch throws exceptions of the two classes only. -/
def AllCaught {C : Type} (branches : List (Branch Exception C)) : Prop :=
  ∀ b ∈ branches, ∀ v e, b.decode v = .error e → Caught e

@[simp] theorem allCaught_nil {C : Type} : AllCaught ([] : List (Branch Exception C)) :=
  List.forall_mem_nil _

@[simp] theorem allCaught_cons {A C : Type} [Get A] [GetCaught A] {key : String}
    {assign : A → C → C} {branches : List (Branch Exception C)} :
    AllCaught (⟨key, get, assign⟩ :: branches) ↔ AllCaught branches := by
  refine List.forall_mem_cons.trans ⟨fun h => h.2, fun h => ⟨GetCaught.caught, h⟩⟩

theorem caught_readTable {C : Type} {branches : List (Branch Exception C)}
    (hbranches : AllCaught branches) (init : C) (v : Value) (e : Exception)
    (h : readTable invalidKey branches init v = .error e) : Caught e := by
  rcases bind_eq_error_iff.mp h with h | ⟨entries, -, h⟩
  · exact caught_asTable h
  · exact readEntries_error (fun _ => trivial) hbranches h

instance : GetCaught CompressionConfig where
  caught := caught_readTable (by simp) _

instance : GetCaught TcpAcceptorConfig where
  caught := caught_readTable (by simp) _

instance : GetCaught TcpConnectorConfig where
  caught := caught_readTable (by simp) _

instance : GetCaught UdpAcceptorConfig where
  caught := caught_readTable (by simp) _

instance : GetCaught UdpConnectorConfig where
  caught := caught_readTable (by simp) _

instance : GetCaught ServerConfig where
  caught := caught_readTable (by simp) _

instance : GetCaught ClientConfig where
  caught := caught_readTable (by simp) _

instance : GetCaught MprpcConfig where
  caught := caught_readTable (by simp) _

/-- **`load` throws one error**: whatever is wrong with the file, the exception has code
`config_parse_error`. -/
theorem load_eq_error {what : Exception → String} {parsed : Except Exception Document}
    (hparsed : ∀ e, parsed = .error e → Caught e) {ex : StdException}
    (h : load what parsed = .error ex) :
    ∃ e, Caught e ∧ ex = .exception (.of .configParseError (what e)) := by
  have hcaught : ∀ e, (do let data ← parsed; get data.value : Except Exception MprpcConfig) =
      .error e → Caught e := by
    intro e he
    rcases bind_eq_error_iff.mp he with he | ⟨d, -, he⟩
    · exact hparsed e he
    · exact GetCaught.caught _ _ he
  rw [load] at h
  cases hresult : (do let data ← parsed; get data.value : Except Exception MprpcConfig) with
  | ok config => simp [hresult] at h
  | error e =>
    simp only [hresult] at h
    have he := hcaught e hresult
    refine ⟨e, he, ?_⟩
    cases e with
    | exception info => exact he.elim
    | syntaxError text =>
      cases h
      rfl
    | typeError title comment =>
      cases h
      rfl
    | runtimeError title comment =>
      cases h
      rfl

end MpRpc.Config
