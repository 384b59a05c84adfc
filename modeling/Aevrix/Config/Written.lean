import Mathlib.Tactic.NormNum
import Aevrix.Config.ServerConfig

/-!
# What a configuration file says and what is loaded from it

`IntKey` and `BoolKey` are the keys with a number and with a switch. A load that succeeds holds
of each what the file says exactly where the text is a number the field can hold
(`written_iff`); any other text is cut, cast or passed over without a word.
-/

namespace Aevrix.Config

inductive IntKey where
  | port | workers | headerTimeoutMs | bodyTimeoutMs | keepAliveTimeoutMs | writeTimeoutMs
  | maxConnections | maxBufferSize | maxRequestBody | tlsPort | proxyConnectTimeoutMs
  | proxyReadTimeoutMs | proxyMaxIdleConnections | proxyMaxResponseBytes | proxyIdleTimeoutMs
  | websocketMaxMessageBytes | websocketCloseTimeoutMs | websocketPingIntervalMs
  deriving DecidableEq

namespace IntKey

def name : IntKey → Bytes
  | port => ascii "port"
  | workers => ascii "workers"
  | headerTimeoutMs => ascii "header_timeout_ms"
  | bodyTimeoutMs => ascii "body_timeout_ms"
  | keepAliveTimeoutMs => ascii "keep_alive_timeout_ms"
  | writeTimeoutMs => ascii "write_timeout_ms"
  | maxConnections => ascii "max_connections"
  | maxBufferSize => ascii "max_buffer_size"
  | maxRequestBody => ascii "max_request_body"
  | tlsPort => ascii "tls_port"
  | proxyConnectTimeoutMs => ascii "proxy_connect_timeout_ms"
  | proxyReadTimeoutMs => ascii "proxy_read_timeout_ms"
  | proxyMaxIdleConnections => ascii "proxy_max_idle_connections"
  | proxyMaxResponseBytes => ascii "proxy_max_response_bytes"
  | proxyIdleTimeoutMs => ascii "proxy_idle_timeout_ms"
  | websocketMaxMessageBytes => ascii "websocket_max_message_bytes"
  | websocketCloseTimeoutMs => ascii "websocket_close_timeout_ms"
  | websocketPingIntervalMs => ascii "websocket_ping_interval_ms"

/-- The width of the field. -/
def bits : IntKey → ℕ
  | port | tlsPort => 16
  | workers | maxConnections | maxBufferSize | maxRequestBody | proxyMaxIdleConnections
  | proxyMaxResponseBytes | websocketMaxMessageBytes => 32
  | _ => 64

def value (c : ServerConfig) : IntKey → ℕ
  | port => c.port.toNat
  | workers => c.workers.toNat
  | headerTimeoutMs => c.headerTimeoutMs.toNat
  | bodyTimeoutMs => c.bodyTimeoutMs.toNat
  | keepAliveTimeoutMs => c.keepAliveTimeoutMs.toNat
  | writeTimeoutMs => c.writeTimeoutMs.toNat
  | maxConnections => c.maxConnections.toNat
  | maxBufferSize => c.maxBufferSize.toNat
  | maxRequestBody => c.maxRequestBody.toNat
  | tlsPort => c.tlsPort.toNat
  | proxyConnectTimeoutMs => c.proxyConnectTimeoutMs.toNat
  | proxyReadTimeoutMs => c.proxyReadTimeoutMs.toNat
  | proxyMaxIdleConnections => c.proxyMaxIdleConnections.toNat
  | proxyMaxResponseBytes => c.proxyMaxResponseBytes.toNat
  | proxyIdleTimeoutMs => c.proxyIdleTimeoutMs.toNat
  | websocketMaxMessageBytes => c.websocketMaxMessageBytes.toNat
  | websocketCloseTimeoutMs => c.websocketCloseTimeoutMs.toNat
  | websocketPingIntervalMs => c.websocketPingIntervalMs.toNat

end IntKey

inductive BoolKey where
  | tlsEnabled | proxyEnabled | proxyStripPrefix | websocketEnabled | adminApiEnabled
  deriving DecidableEq

namespace BoolKey

def name : BoolKey → Bytes
  | tlsEnabled => ascii "tls_enabled"
  | proxyEnabled => ascii "proxy_enabled"
  | proxyStripPrefix => ascii "proxy_strip_prefix"
  | websocketEnabled => ascii "websocket_enabled"
  | adminApiEnabled => ascii "admin_api_enabled"

def value (c : ServerConfig) : BoolKey → Bool
  | tlsEnabled => c.tlsEnabled
  | proxyEnabled => c.proxyEnabled
  | proxyStripPrefix => c.proxyStripPrefix
  | websocketEnabled => c.websocketEnabled
  | adminApiEnabled => c.adminApiEnabled

end BoolKey

/-- A decimal integer, with or without a sign. -/
inductive IntegerText : Bytes → ℤ → Prop
  | plain {v : Bytes} {m : ℕ} : IsDecimal v m → IntegerText v m
  | plus {v : Bytes} {m : ℕ} : IsDecimal v m → IntegerText (43 :: v) m
  | minus {v : Bytes} {m : ℕ} : IsDecimal v m → IntegerText (45 :: v) (-m)

/-! ### Getters -/

theorem stoll_integerText {text : Bytes} {n : ℤ} (h : IntegerText text n) :
    stoll text = if -2 ^ 63 ≤ n ∧ n < 2 ^ 63 then some n else none := by
  have hsign : ∀ c : Byte, isSpace c = false → ∀ v, (c :: v).dropWhile isSpace = c :: v := by
    intro c hc v
    rw [List.dropWhile_cons, hc]
    rfl
  cases h with
  | plain hv => exact stoll_decimal hv
  | plus hv =>
    rw [stoll, hsign 43 (by decide)]
    exact stollDigits_decimal hv (by simp)
  | minus hv =>
    rw [stoll, hsign 45 (by decide)]
    exact stollDigits_decimal hv (by simp)

theorem getInt_written {p : ConfigParser} {key text : Bytes} {n d : ℤ}
    (htext : p.values.lookup key = some text) (h : IntegerText text n) :
    p.getInt key d = if -2 ^ 63 ≤ n ∧ n < 2 ^ 63 then n else d := by
  rw [ConfigParser.getInt, htext, Option.bind_some, stoll_integerText h]
  split <;> rfl

/-! ### Casts -/

theorem ofInt16 (n : ℤ) : ((UInt16.ofInt n).toNat : ℤ) = n % 2 ^ 16 := by
  rw [UInt16.ofInt, UInt16.toNat_ofNat']
  omega

theorem ofInt32 (n : ℤ) : ((UInt32.ofInt n).toNat : ℤ) = n % 2 ^ 32 := by
  rw [UInt32.ofInt, UInt32.toNat_ofNat']
  omega

theorem ofInt64 (n : ℤ) : ((UInt64.ofInt n).toNat : ℤ) = n % 2 ^ 64 := by
  rw [UInt64.ofInt, UInt64.toNat_ofNat']
  omega

/-- Every number is loaded through a getter with the old value as its default, and cast. -/
theorem int_loaded {c c' : ServerConfig} {p : ConfigParser} (h : c.loadFromParser p = .ok c')
    (key : IntKey) :
    (key.value c' : ℤ) = p.getInt key.name (toSigned (key.value c)) % 2 ^ key.bits := by
  obtain ⟨level, -, rfl⟩ := ServerConfig.loadFromParser_eq h
  cases key <;> first | exact ofInt16 _ | exact ofInt32 _ | exact ofInt64 _

theorem bits_le (key : IntKey) : key.bits ≤ 64 := by
  cases key <;> decide

theorem value_lt (c : ServerConfig) (key : IntKey) : key.value c < 2 ^ key.bits := by
  cases key <;> first | exact UInt16.toNat_lt _ | exact UInt32.toNat_lt _ | exact UInt64.toNat_lt _

theorem bmod_emod_of_dvd (n : ℤ) {m : ℕ} {d : ℤ} (h : d ∣ m) : Int.bmod n m % d = n % d := by
  rw [← Int.emod_emod_of_dvd _ h, Int.bmod_emod, Int.emod_emod_of_dvd _ h]

theorem default_loaded (c : ServerConfig) (key : IntKey) :
    toSigned (key.value c) % 2 ^ key.bits = key.value c := by
  have hdvd : (2 : ℤ) ^ key.bits ∣ (2 ^ 64 : ℕ) := by
    exact_mod_cast pow_dvd_pow 2 (bits_le key)
  have hlt : (key.value c : ℤ) < 2 ^ key.bits := by exact_mod_cast value_lt c key
  have hcast := bmod_emod_of_dvd (key.value c) hdvd
  rw [Int.emod_eq_of_lt (Int.natCast_nonneg _) hlt] at hcast
  exact hcast

theorem bool_loaded {c c' : ServerConfig} {p : ConfigParser} (h : c.loadFromParser p = .ok c')
    (key : BoolKey) : key.value c' = p.getBool key.name (key.value c) := by
  obtain ⟨level, -, rfl⟩ := ServerConfig.loadFromParser_eq h
  cases key <;> rfl

/-! ### As written -/

/-- Each number and each switch of the file is what the configuration holds. -/
structure AsWritten (p : ConfigParser) (c : ServerConfig) : Prop where
  ints : ∀ key : IntKey, ∀ text, p.values.lookup key.name = some text →
    ∃ n, IntegerText text n ∧ (key.value c : ℤ) = n
  bools : ∀ key : BoolKey, ∀ text, p.values.lookup key.name = some text →
    boolWord text = some (key.value c)

/-- Each number of the file fits its field and `stoll`, or is the one the field already has;
each switch is a word `get_bool` knows. -/
structure WellWritten (c : ServerConfig) (p : ConfigParser) : Prop where
  ints : ∀ key : IntKey, ∀ text, p.values.lookup key.name = some text →
    ∃ n, IntegerText text n ∧
      (0 ≤ n ∧ n < 2 ^ key.bits ∧ n < 2 ^ 63 ∨ 2 ^ 63 ≤ n ∧ n = key.value c)
  bools : ∀ key : BoolKey, ∀ text, p.values.lookup key.name = some text →
    (boolWord text).isSome

/-- Where the file says `n`, the field holds `n` just if the casts and `stoll` keep it. -/
theorem int_written_iff {c c' : ServerConfig} {p : ConfigParser}
    (h : c.loadFromParser p = .ok c') (key : IntKey) {text : Bytes} {n : ℤ}
    (htext : p.values.lookup key.name = some text) (hn : IntegerText text n) :
    (key.value c' : ℤ) = n ↔
      0 ≤ n ∧ n < 2 ^ key.bits ∧ n < 2 ^ 63 ∨ 2 ^ 63 ≤ n ∧ n = key.value c := by
  have hloaded := int_loaded h key
  have hlt : (key.value c' : ℤ) < 2 ^ key.bits := by exact_mod_cast value_lt c' key
  rw [getInt_written htext hn] at hloaded
  split at hloaded
  · rename_i hrange
    constructor
    · intro heq
      exact Or.inl ⟨by omega, by rwa [← heq], hrange.2⟩
    · rintro (⟨hpos, hbits, -⟩ | ⟨hlarge, -⟩)
      · rw [hloaded, Int.emod_eq_of_lt hpos hbits]
      · omega
  · rename_i hrange
    rw [default_loaded] at hloaded
    omega

/-- A configuration that was loaded is as written exactly where the file is well written. -/
theorem written_iff {c c' : ServerConfig} {p : ConfigParser} (h : c.loadFromParser p = .ok c') :
    AsWritten p c' ↔ WellWritten c p := by
  constructor
  · intro hwritten
    refine ⟨fun key text htext => ?_, fun key text htext => ?_⟩
    · obtain ⟨n, hn, hvalue⟩ := hwritten.ints key text htext
      exact ⟨n, hn, (int_written_iff h key htext hn).mp hvalue⟩
    · rw [hwritten.bools key text htext]
      rfl
  · intro hwell
    refine ⟨fun key text htext => ?_, fun key text htext => ?_⟩
    · obtain ⟨n, hn, hfits⟩ := hwell.ints key text htext
      exact ⟨n, hn, (int_written_iff h key htext hn).mpr hfits⟩
    · obtain ⟨b, hb⟩ := Option.isSome_iff_exists.mp (hwell.bools key text htext)
      rw [bool_loaded h, ConfigParser.getBool, htext, Option.bind_some, hb]
      rfl

/-- One line that says port 81. -/
theorem written_iff_port :
    AsWritten (.parseFile (ascii "port = 81")) { port := 81 } ↔
      WellWritten {} (.parseFile (ascii "port = 81")) :=
  written_iff (by decide)

/-- A port beyond 16 bits, a number that is none and a switch with an unknown word: the load
succeeds, with another port and the defaults. -/
def carelessFile : ConfigParser :=
  { values := [(ascii "port", ascii "65616"), (ascii "workers", ascii "many"),
      (ascii "proxy_strip_prefix", ascii "off")] }

theorem careless_loaded : ({} : ServerConfig).loadFromParser carelessFile = .ok { port := 80 } ∧
    ¬AsWritten carelessFile { port := 80 } := by
  refine ⟨by decide, fun h => ?_⟩
  obtain ⟨n, hn, hport⟩ := h.ints .port (ascii "65616") (by decide)
  have hstoll := stoll_integerText hn
  rw [← hport] at hstoll
  revert hstoll
  decide

end Aevrix.Config
