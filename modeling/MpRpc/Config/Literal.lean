import Mathlib
import MpRpc.Config

/-!
# Literal — a configuration taken literally

The form of a configuration file says what a file means: at each level which keys are
known, and for each option which values are of its type, lie in the range of that type
and pass its check. The functions `from_toml` read this form with the integers narrowed:
`toml::get` casts before the option is checked, so that an integer out of range is taken
for another one instead of being rejected.
-/

namespace MpRpc.Config

open Toml

/-! ## Values of options -/

/-- How the values of a `value_type` are written in a document. -/
class Written (α : Type) [Get α] where
  /-- The value of the document is this one. -/
  Denotes : Value → α → Prop
  /-- An integer of the document lies in the range of the type. -/
  Fits : Value → Prop
  denotes_iff (v : Value) (x : α) : Denotes v x ↔ get v = .ok x ∧ Fits v

instance {α : Type} [Integral α] : Written α where
  Denotes v x := ∃ i, v = .integer i ∧ Integral.toInt x = i.toInt
  Fits v := ∀ i, v = .integer i →
    Integral.minValue α ≤ i.toInt ∧ i.toInt ≤ Integral.maxValue α
  denotes_iff v x := by
    constructor
    · rintro ⟨i, rfl, h⟩
      obtain ⟨hcast, hfits⟩ := (Integral.toInt_eq_iff x i).mp h
      refine ⟨congrArg Except.ok hcast, ?_⟩
      rintro _ ⟨⟩
      exact hfits
    · rintro ⟨h, hfits⟩
      obtain ⟨i, hi, hcast⟩ := Fallible.map_eq_ok_iff.mp h
      obtain rfl := Value.asInteger_eq_ok.mp hi
      exact ⟨i, rfl, (Integral.toInt_eq_iff x i).mpr ⟨hcast, hfits i rfl⟩⟩

instance : Written String where
  Denotes v s := v = .string s
  Fits _ := True
  denotes_iff v s := by
    rw [and_true]
    exact Value.asString_eq_ok.symm

instance : Written CompressionType where
  Denotes v type := ∃ s, v = .string s ∧
    (s = "none" ∧ type = .none ∨ s = "zstd" ∧ type = .zstd)
  Fits _ := True
  denotes_iff v type := by
    rw [and_true]
    exact CompressionType.fromToml_eq_ok_iff.symm

instance : Written TransportType where
  Denotes v type := ∃ s, v = .string s ∧
    ((s = "tcp" ∨ s = "TCP") ∧ type = .tcp ∨ (s = "udp" ∨ s = "UDP") ∧ type = .udp)
  Fits _ := True
  denotes_iff v type := by
    rw [and_true]
    exact TransportType.fromToml_eq_ok_iff.symm

namespace ConfigOption

variable {α : Type} [Get α] [Written α] (T : OptionType α)

/-- A value of the type of the option that passes its check. -/
def form : Form (ConfigOption T) where
  Accepts
    | .literal, v => ∃ x, Written.Denotes v x ∧ T.validate x = true
    | .narrowed, v => ∃ x, get v = .ok x ∧ T.validate x = true
  InRange v := Written.Fits α v
  Literal v o := Written.Denotes v o.value
  accepts_literal_iff v := by
    simp only [Written.denotes_iff]
    constructor
    · rintro ⟨x, ⟨hx, hfits⟩, hvalid⟩
      exact ⟨⟨x, hx, hvalid⟩, hfits⟩
    · rintro ⟨⟨x, hx, hvalid⟩, hfits⟩
      exact ⟨x, ⟨hx, hfits⟩, hvalid⟩

theorem decodes : (form T).Decodes (get : Value → Except Exception (ConfigOption T)) where
  succeeds_iff v := by
    constructor
    · rintro ⟨o, h⟩
      exact ⟨o.value, (get_eq_ok_iff T).mp h, o.valid⟩
    · rintro ⟨x, hx, hvalid⟩
      exact ⟨⟨x, hvalid⟩, (get_eq_ok_iff T).mpr hx⟩
  literal _ h hrange := (Written.denotes_iff _ _).mpr ⟨(get_eq_ok_iff T).mp h, hrange⟩

end ConfigOption

/-! ## The form of each record -/

namespace CompressionConfig

/-- The keys of a table `compression`. -/
def fields : List (Form.Field CompressionConfig) := [
  ⟨"type", ConfigOption.form _, type, .ofDefault _⟩,
  ⟨"zstd_compression_level", ConfigOption.form _, zstdCompressionLevel, .ofDefault _⟩]

theorem nodup_fields : (fields.map Form.Field.key).Nodup := by decide

def form : Form CompressionConfig := .record fields nodup_fields

theorem decodes : form.Decodes (get : Value → Except Exception CompressionConfig) :=
  Form.Implements.decodes {
    read :=
      .cons (.intro (ConfigOption.decodes _) fun _ _ => rfl) <|
      .cons (.intro (ConfigOption.decodes _) fun _ _ => rfl) <|
      .nil
    frame := by simp
    init := by simp } nodup_fields invalidKey

end CompressionConfig

namespace TcpAcceptorConfig

/-- The keys of an element of `tcp_acceptors`. -/
def fields : List (Form.Field TcpAcceptorConfig) := [
  ⟨"compression", CompressionConfig.form, (·.compression), {}⟩,
  ⟨"host", ConfigOption.form _, (·.host), .ofDefault _⟩,
  ⟨"port", ConfigOption.form _, (·.port), .ofDefault _⟩,
  ⟨"streaming_min_buf_size", ConfigOption.form _, (·.streamingMinBufSize), .ofDefault _⟩]

theorem nodup_fields : (fields.map Form.Field.key).Nodup := by decide

def form : Form TcpAcceptorConfig := .record fields nodup_fields

theorem decodes : form.Decodes (get : Value → Except Exception TcpAcceptorConfig) :=
  Form.Implements.decodes {
    read :=
      .cons (.intro CompressionConfig.decodes fun _ _ => rfl) <|
      .cons (.intro (ConfigOption.decodes _) fun _ _ => rfl) <|
      .cons (.intro (ConfigOption.decodes _) fun _ _ => rfl) <|
      .cons (.intro (ConfigOption.decodes _) fun _ _ => rfl) <|
      .nil
    frame := by simp
    init := by simp } nodup_fields invalidKey

end TcpAcceptorConfig

namespace TcpConnectorConfig

/-- The keys of the table `tcp_connector`. -/
def fields : List (Form.Field TcpConnectorConfig) := [
  ⟨"compression", CompressionConfig.form, (·.compression), {}⟩,
  ⟨"host", ConfigOption.form _, (·.host), .ofDefault _⟩,
  ⟨"port", ConfigOption.form _, (·.port), .ofDefault _⟩,
  ⟨"streaming_min_buf_size", ConfigOption.form _, (·.streamingMinBufSize), .ofDefault _⟩]

theorem nodup_fields : (fields.map Form.Field.key).Nodup := by decide

def form : Form TcpConnectorConfig := .record fields nodup_fields

theorem decodes : form.Decodes (get : Value → Except Exception TcpConnectorConfig) :=
  Form.Implements.decodes {
    read :=
      .cons (.intro CompressionConfig.decodes fun _ _ => rfl) <|
      .cons (.intro (ConfigOption.decodes _) fun _ _ => rfl) <|
      .cons (.intro (ConfigOption.decodes _) fun _ _ => rfl) <|
      .cons (.intro (ConfigOption.decodes _) fun _ _ => rfl) <|
      .nil
    frame := by simp
    init := by simp } nodup_fields invalidKey

end TcpConnectorConfig

namespace UdpAcceptorConfig

/-- The keys of an element of `udp_acceptors`. -/
def fields : List (Form.Field UdpAcceptorConfig) := [
  ⟨"compression", CompressionConfig.form, (·.compression), {}⟩,
  ⟨"host", ConfigOption.form _, (·.host), .ofDefault _⟩,
  ⟨"port", ConfigOption.form _, (·.port), .ofDefault _⟩,
  ⟨"datagram_buf_size", ConfigOption.form _, (·.datagramBufSize), .ofDefault _⟩]

theorem nodup_fields : (fields.map Form.Field.key).Nodup := by decide

def form : Form UdpAcceptorConfig := .record fields nodup_fields

theorem decodes : form.Decodes (get : Value → Except Exception UdpAcceptorConfig) :=
  Form.Implements.decodes {
    read :=
      .cons (.intro CompressionConfig.decodes fun _ _ => rfl) <|
      .cons (.intro (ConfigOption.decodes _) fun _ _ => rfl) <|
      .cons (.intro (ConfigOption.decodes _) fun _ _ => rfl) <|
      .cons (.intro (ConfigOption.decodes _) fun _ _ => rfl) <|
      .nil
    frame := by simp
    init := by simp } nodup_fields invalidKey

end UdpAcceptorConfig

namespace UdpConnectorConfig

/-- The keys of the table `udp_connector`. -/
def fields : List (Form.Field UdpConnectorConfig) := [
  ⟨"compression", CompressionConfig.form, (·.compression), {}⟩,
  ⟨"host", ConfigOption.form _, (·.host), .ofDefault _⟩,
  ⟨"port", ConfigOption.form _, (·.port), .ofDefault _⟩,
  ⟨"datagram_buf_size", ConfigOption.form _, (·.datagramBufSize), .ofDefault _⟩]

theorem nodup_fields : (fields.map Form.Field.key).Nodup := by decide

def form : Form UdpConnectorConfig := .record fields nodup_fields

theorem decodes : form.Decodes (get : Value → Except Exception UdpConnectorConfig) :=
  Form.Implements.decodes {
    read :=
      .cons (.intro CompressionConfig.decodes fun _ _ => rfl) <|
      .cons (.intro (ConfigOption.decodes _) fun _ _ => rfl) <|
      .cons (.intro (ConfigOption.decodes _) fun _ _ => rfl) <|
      .cons (.intro (ConfigOption.decodes _) fun _ _ => rfl) <|
      .nil
    frame := by simp
    init := by simp } nodup_fields invalidKey

end UdpConnectorConfig

namespace ServerConfig

/-- The keys of the table `server`. -/
def fields : List (Form.Field ServerConfig) := [
  ⟨"num_threads", ConfigOption.form _, numThreads, .ofDefault _⟩,
  ⟨"tcp_acceptors", TcpAcceptorConfig.form.list, tcpAcceptors, []⟩,
  ⟨"udp_acceptors", UdpAcceptorConfig.form.list, udpAcceptors, []⟩]

theorem nodup_fields : (fields.map Form.Field.key).Nodup := by decide

def form : Form ServerConfig := .record fields nodup_fields

theorem decodes : form.Decodes (get : Value → Except Exception ServerConfig) :=
  Form.Implements.decodes {
    read :=
      .cons (.intro (ConfigOption.decodes _) fun _ _ => rfl) <|
      .cons (.intro TcpAcceptorConfig.decodes.list fun _ _ => rfl) <|
      .cons (.intro UdpAcceptorConfig.decodes.list fun _ _ => rfl) <|
      .nil
    frame := by simp
    init := by simp } nodup_fields invalidKey

end ServerConfig

namespace ClientConfig

/-- The keys of the table `client`. -/
def fields : List (Form.Field ClientConfig) := [
  ⟨"num_threads", ConfigOption.form _, numThreads, .ofDefault _⟩,
  ⟨"sync_request_timeout_ms", ConfigOption.form _, syncRequestTimeoutMs, .ofDefault _⟩,
  ⟨"connector_type", ConfigOption.form _, connectorType, .ofDefault _⟩,
  ⟨"tcp_connector", TcpConnectorConfig.form, tcpConnector, {}⟩,
  ⟨"udp_connector", UdpConnectorConfig.form, udpConnector, {}⟩]

theorem nodup_fields : (fields.map Form.Field.key).Nodup := by decide

def form : Form ClientConfig := .record fields nodup_fields

theorem decodes : form.Decodes (get : Value → Except Exception ClientConfig) :=
  Form.Implements.decodes {
    read :=
      .cons (.intro (ConfigOption.decodes _) fun _ _ => rfl) <|
      .cons (.intro (ConfigOption.decodes _) fun _ _ => rfl) <|
      .cons (.intro (ConfigOption.decodes _) fun _ _ => rfl) <|
      .cons (.intro TcpConnectorConfig.decodes fun _ _ => rfl) <|
      .cons (.intro UdpConnectorConfig.decodes fun _ _ => rfl) <|
      .nil
    frame := by simp
    init := by simp } nodup_fields invalidKey

end ClientConfig

namespace MprpcConfig

/-- The keys of a document. -/
def fields : List (Form.Field MprpcConfig) := [
  ⟨"client", ClientConfig.form, client, {}⟩,
  ⟨"server", ServerConfig.form, server, {}⟩]

theorem nodup_fields : (fields.map Form.Field.key).Nodup := by decide

def form : Form MprpcConfig := .record fields nodup_fields

theorem decodes : form.Decodes (get : Value → Except Exception MprpcConfig) :=
  Form.Implements.decodes {
    read :=
      .cons (.intro ClientConfig.decodes fun _ _ => rfl) <|
      .cons (.intro ServerConfig.decodes fun _ _ => rfl) <|
      .nil
    frame := by simp
    init := by simp } nodup_fields invalidKey

end MprpcConfig

/-! ## `load` -/

theorem load_eq_ok_iff {what : Exception → String} {d : Document} {config : MprpcConfig} :
    load what (.ok d) = .ok config ↔ get d.value = .ok config := by
  rw [load]
  simp only [bind, Except.bind]
  cases h : (get d.value : Except Exception MprpcConfig) with
  | ok c => simp
  | error e => cases e <;> simp

/-- **Configuration is taken literally or rejected, up to narrowing**: `load` accepts
the documents of the form of a configuration, and no others, and returns what they say,
for just those documents that have each integer in the range of its option, or that are
rejected even with their integers narrowed. -/
theorem literal_or_rejected_iff_in_range (what : Exception → String) (d : Document) :
    (((∃ config, load what (.ok d) = .ok config) ↔
        MprpcConfig.form.Accepts .literal d.value) ∧
      ∀ config, load what (.ok d) = .ok config → MprpcConfig.form.Literal d.value config) ↔
    (MprpcConfig.form.Accepts .narrowed d.value → MprpcConfig.form.InRange d.value) := by
  simp only [load_eq_ok_iff]
  exact MprpcConfig.decodes.literal_or_rejected_iff d.wellFormed

/-- A port that is too large, and a negative number of threads. -/
def outOfRangeEntries : List (String × Value) := [
  ("client", .table [("tcp_connector", .table [("port", .integer 65616)])]),
  ("server", .table [("num_threads", .integer (-1))])]

theorem wellFormed_outOfRange : (Value.table outOfRangeEntries).WellFormed := by
  simp [outOfRangeEntries]

/-- The port becomes 80 and the number of threads `2 ^ 64 - 1`, although no configuration
says so. -/
theorem out_of_range_is_narrowed :
    ¬ MprpcConfig.form.Accepts .literal (Value.table outOfRangeEntries) ∧
    ∃ config, load (fun _ => "") (.ok ⟨outOfRangeEntries, wellFormed_outOfRange⟩) = .ok config ∧
      config.client.tcpConnector.port.value = 80 ∧
      config.server.numThreads.value = 18446744073709551615 := by
  constructor
  · rw [Form.accepts_literal_iff]
    rintro ⟨-, hrange⟩
    have hclient := hrange _ rfl _ List.mem_cons_self _ List.mem_cons_self rfl
    have hconnector := hclient _ rfl _ List.mem_cons_self _
      (List.mem_of_getElem? (i := 3) rfl) rfl
    have hport := hconnector _ rfl _ List.mem_cons_self _
      (List.mem_of_getElem? (i := 2) rfl) rfl
    exact absurd (hport _ rfl).2 (by decide)
  · exact ⟨_, rfl, by decide +kernel, by decide +kernel⟩

end MpRpc.Config
