import Aevrix.Config.Store
import Aevrix.Incremental.Splits
import Aevrix.Keyed.Pairs

/-!
# What a diff of two configurations lists

A diff compares what `flatten` prints. Each printed form but that of the secret tells any two
values of a loaded configuration apart; the secret is printed by its length
(`diffKeys_exact_iff`).
-/

namespace Aevrix.Config
open Incremental Keyed

/-- The diff of two tables with the same keys lists a key if it has another text. -/
theorem mem_diffEntries {olds news : List (Bytes × Bytes)} {key : Bytes}
    (hkeys : olds.map Prod.fst = news.map Prod.fst) (hnodup : (olds.map Prod.fst).Nodup) :
    key ∈ (diffEntries olds news).map Prod.fst ↔ olds.lookup key ≠ news.lookup key := by
  induction olds generalizing news with
  | nil =>
    rw [List.map_eq_nil_iff.mp hkeys.symm]
    exact iff_of_false List.not_mem_nil (fun h => h rfl)
  | cons f rest ih =>
    cases news with
    | nil => cases hkeys
    | cons g rest' =>
      obtain ⟨hhead, hrest⟩ := List.cons_eq_cons.mp hkeys
      obtain ⟨hnew, htail⟩ := List.nodup_cons.mp hnodup
      obtain ⟨k, old⟩ := f
      obtain ⟨k', new⟩ := g
      obtain rfl : k = k' := hhead
      rw [diffEntries, if_neg (fun h => h rfl)]
      by_cases hkey : key = k
      · have hrest' : k ∉ (diffEntries rest rest').map Prod.fst :=
          fun h => hnew ((ServerConfigStore.diffEntries_keys rest rest').subset h)
        rw [hkey, List.lookup_cons_self, List.lookup_cons_self]
        split
        · rename_i hne
          exact iff_of_true List.mem_cons_self fun h => hne (Option.some.inj h)
        · rename_i heq
          refine iff_of_false hrest' fun h => h ?_
          rw [not_not.mp heq]
      · rw [List.lookup_cons, List.lookup_cons, beq_false_of_ne hkey, ← ih hrest htail]
        split
        · rw [List.map_cons, List.mem_cons]
          exact or_iff_right hkey
        · rfl

/-! ### Values and their texts -/

inductive ConfigValue where
  | number (n : ℕ)
  | switch (value : Bool)
  | text (value : Bytes)
  | secret (value : Bytes)
  | list (values : List Bytes)
  deriving DecidableEq

namespace ConfigValue

/-- What `flatten` prints of a value. -/
def printed : ConfigValue → Bytes
  | number n => decimalText n
  | switch value => boolStr value
  | text value => value
  | secret value => masked value
  | list values => joinCsv values

end ConfigValue

/-- Every value of a configuration under its key. -/
def ServerConfig.fields (c : ServerConfig) : List (Bytes × ConfigValue) :=
  [(ascii "host", .text c.host),
    (ascii "port", .number c.port.toNat),
    (ascii "workers", .number c.workers.toNat),
    (ascii "document_root", .text c.documentRoot),
    (ascii "header_timeout_ms", .number c.headerTimeoutMs.toNat),
    (ascii "body_timeout_ms", .number c.bodyTimeoutMs.toNat),
    (ascii "keep_alive_timeout_ms", .number c.keepAliveTimeoutMs.toNat),
    (ascii "write_timeout_ms", .number c.writeTimeoutMs.toNat),
    (ascii "max_connections", .number c.maxConnections.toNat),
    (ascii "max_buffer_size", .number c.maxBufferSize.toNat),
    (ascii "max_request_body", .number c.maxRequestBody.toNat),
    (ascii "log_level", .text c.logLevel),
    (ascii "admin_api_enabled", .switch c.adminApiEnabled),
    (ascii "admin_token", .secret c.adminToken),
    (ascii "tls_enabled", .switch c.tlsEnabled),
    (ascii "tls_port", .number c.tlsPort.toNat),
    (ascii "tls_cert_file", .text c.tlsCertFile),
    (ascii "tls_key_file", .text c.tlsKeyFile),
    (ascii "tls_min_version", .text c.tlsMinVersion),
    (ascii "tls_max_version", .text c.tlsMaxVersion),
    (ascii "proxy_enabled", .switch c.proxyEnabled),
    (ascii "proxy_pass", .text c.proxyPass),
    (ascii "proxy_prefix", .text c.proxyPrefix),
    (ascii "proxy_strip_prefix", .switch c.proxyStripPrefix),
    (ascii "proxy_connect_timeout_ms", .number c.proxyConnectTimeoutMs.toNat),
    (ascii "proxy_read_timeout_ms", .number c.proxyReadTimeoutMs.toNat),
    (ascii "proxy_max_idle_connections", .number c.proxyMaxIdleConnections.toNat),
    (ascii "proxy_max_response_bytes", .number c.proxyMaxResponseBytes.toNat),
    (ascii "proxy_idle_timeout_ms", .number c.proxyIdleTimeoutMs.toNat),
    (ascii "websocket_enabled", .switch c.websocketEnabled),
    (ascii "websocket_paths", .list c.websocketAllowedPaths),
    (ascii "websocket_max_message_bytes", .number c.websocketMaxMessageBytes.toNat),
    (ascii "websocket_close_timeout_ms", .number c.websocketCloseTimeoutMs.toNat),
    (ascii "websocket_ping_interval_ms", .number c.websocketPingIntervalMs.toNat),
    (ascii "websocket_allowed_origins", .list c.websocketAllowedOrigins)]

theorem flatten_eq (c : ServerConfig) : flatten c = c.fields.map fun f => (f.1, f.2.printed) := rfl

theorem keys_fields (a b : ServerConfig) : a.fields.map Prod.fst = b.fields.map Prod.fst := rfl

theorem fields_injective {a b : ServerConfig} (h : a.fields = b.fields) : a = b := by
  cases a
  cases b
  simp only [ServerConfig.fields, List.cons.injEq, Prod.mk.injEq, true_and, and_true,
    ConfigValue.text.injEq, ConfigValue.number.injEq, ConfigValue.switch.injEq,
    ConfigValue.secret.injEq, ConfigValue.list.injEq, UInt16.toNat_inj, UInt32.toNat_inj,
    UInt64.toNat_inj] at h
  simp only [h]

/-! ### Texts that tell values apart -/

theorem decimalText_injective {m n : ℕ} (h : decimalText m = decimalText n) : m = n := by
  obtain ⟨-, -, hm⟩ := isDecimal_decimalText m
  obtain ⟨-, -, hn⟩ := isDecimal_decimalText n
  rw [← hm, h, hn]

theorem boolStr_injective {a b : Bool} (h : boolStr a = boolStr b) : a = b := by
  revert a b
  decide

theorem masked_eq_iff {a b : Bytes} : masked a = masked b ↔ a.length = b.length := by
  have hset : ∀ n : ℕ, ascii "(unset)" ≠ ascii "(set:" ++ decimalText n ++ ascii ")" := by
    intro n h
    have hsecond := congrArg (fun text : Bytes => text.getD 1 0) h
    cases hsecond
  unfold masked
  split
  · rename_i ha
    split
    · rename_i hb
      rw [ha, hb]
      exact iff_of_true rfl rfl
    · rename_i hb
      refine iff_of_false (hset _) fun h => hb ?_
      rw [ha] at h
      exact List.length_eq_zero_iff.mp h.symm
  · rename_i ha
    split
    · rename_i hb
      refine iff_of_false (hset _).symm fun h => ha ?_
      rw [hb] at h
      exact List.length_eq_zero_iff.mp h
    · constructor
      · intro h
        exact decimalText_injective (List.append_cancel_left (List.append_cancel_right h))
      · intro h
        rw [h]

/-- A list that `split_csv` yields. -/
def Split (values : List Bytes) : Prop := ∀ value ∈ values, value ≠ [] ∧ 44 ∉ value

theorem split_splitCsv (value : Bytes) : Split (splitCsv value) := by
  intro entry hentry
  obtain ⟨hmem, hne⟩ := List.mem_filter.mp hentry
  obtain ⟨piece, hpiece, rfl⟩ := List.mem_map.mp hmem
  refine ⟨by simpa using hne, fun hcomma => ?_⟩
  exact notMem_of_mem_splitOn hpiece (mem_of_mem_trimBy hcomma)

theorem joinCsv_injective {a b : List Bytes} (ha : Split a) (hb : Split b)
    (h : joinCsv a = joinCsv b) : a = b := by
  have hsplit : ∀ {values : List Bytes}, Split values → values ≠ [] →
      (joinCsv values).splitOn 44 = values :=
    fun hvalues hne => List.splitOn_intercalate 44 (fun value hvalue => (hvalues value hvalue).2) hne
  have hempty : ∀ {values : List Bytes}, Split values → joinCsv values = [] → values = [] := by
    intro values hvalues hnil
    by_contra hne
    have hone := hsplit hvalues hne
    rw [hnil, List.splitOn_nil] at hone
    exact (hvalues [] (hone ▸ List.mem_cons_self)).1 rfl
  by_cases hnil : a = []
  · rw [hnil] at h ⊢
    exact (hempty hb h.symm).symm
  · have hnil' : b ≠ [] := by
      intro hb'
      rw [hb'] at h
      exact hnil (hempty ha h)
    rw [← hsplit ha hnil, h, hsplit hb hnil']

/-- Two values of one key that their texts tell apart. -/
inductive Distinct : ConfigValue → ConfigValue → Prop
  | number (m n : ℕ) : Distinct (.number m) (.number n)
  | switch (a b : Bool) : Distinct (.switch a) (.switch b)
  | text (a b : Bytes) : Distinct (.text a) (.text b)
  | secret {a b : Bytes} : a = b ∨ a.length ≠ b.length → Distinct (.secret a) (.secret b)
  | list {a b : List Bytes} : Split a → Split b → Distinct (.list a) (.list b)

theorem Distinct.printed_iff {v w : ConfigValue} (h : Distinct v w) :
    v.printed = w.printed ↔ v = w := by
  refine ⟨fun heq => ?_, fun heq => congrArg _ heq⟩
  cases h with
  | number m n => rw [decimalText_injective heq]
  | switch a b => rw [boolStr_injective heq]
  | text a b => rw [show a = b from heq]
  | secret hsecret => rw [hsecret.resolve_right fun h => h (masked_eq_iff.mp heq)]
  | list ha hb => rw [joinCsv_injective ha hb heq]

/-! ### The diff -/

/-- `diff_keys` (`server_config_store.cpp:293-296`). -/
def diffKeys (oldConfig newConfig : ServerConfig) : List Bytes :=
  (diffEntries (flatten oldConfig) (flatten newConfig)).map Prod.fst

theorem changes_publish (s : ServerConfigStore) (candidate : ServerConfig) (rememberPath : Bytes) :
    (s.publish candidate rememberPath).2.changes = diffKeys s.snapshot candidate := by
  simp only [ServerConfigStore.publish, ServerConfigStore.snapshot, diffKeys]
  congr 3
  exact List.getElem_concat_length rfl _

namespace ServerConfig

def valueOf (c : ServerConfig) (key : Bytes) : Option ConfigValue := c.fields.lookup key

/-- The diff lists the keys whose values differ, and nothing just if the configurations are
equal. -/
structure DiffExact (a b : ServerConfig) : Prop where
  keys : ∀ key, key ∈ diffKeys a b ↔ a.valueOf key ≠ b.valueOf key
  empty : diffKeys a b = [] ↔ a = b

variable {a b c c' : ServerConfig} {p : ConfigParser}

theorem split_loaded (h : c.loadFromParser p = .ok c') :
    Split c'.websocketAllowedPaths ∧ Split c'.websocketAllowedOrigins := by
  obtain ⟨level, -, rfl⟩ := loadFromParser_eq h
  exact ⟨split_splitCsv _, split_splitCsv _⟩

theorem nodup_fields (c : ServerConfig) : (c.fields.map Prod.fst).Nodup :=
  ServerConfigStore.flatten_keys_nodup c

theorem mem_diffKeys (a b : ServerConfig) (key : Bytes) : key ∈ diffKeys a b ↔
    (a.valueOf key).map ConfigValue.printed ≠ (b.valueOf key).map ConfigValue.printed := by
  have hkeys : (flatten a).map Prod.fst = (flatten b).map Prod.fst := rfl
  rw [diffKeys, mem_diffEntries hkeys (ServerConfigStore.flatten_keys_nodup a), flatten_eq,
    flatten_eq, lookup_map_snd, lookup_map_snd]
  rfl

theorem eq_of_valueOf (h : ∀ key, a.valueOf key = b.valueOf key) : a = b :=
  fields_injective (eq_of_lookup (keys_fields a b) (nodup_fields a) h)

theorem fields_distinct (hpaths : Split a.websocketAllowedPaths ∧ Split b.websocketAllowedPaths)
    (horigins : Split a.websocketAllowedOrigins ∧ Split b.websocketAllowedOrigins)
    (htoken : a.adminToken = b.adminToken ∨ a.adminToken.length ≠ b.adminToken.length) :
    List.Forall₂ (fun f g => f.1 = g.1 ∧ Distinct f.2 g.2) a.fields b.fields := by
  unfold fields
  repeat' apply List.Forall₂.cons
  all_goals first
    | exact ⟨rfl, .number _ _⟩
    | exact ⟨rfl, .text _ _⟩
    | exact ⟨rfl, .switch _ _⟩
    | exact ⟨rfl, .secret htoken⟩
    | exact ⟨rfl, .list hpaths.1 hpaths.2⟩
    | exact ⟨rfl, .list horigins.1 horigins.2⟩
    | exact .nil

theorem diffExact_of_distinct
    (h : List.Forall₂ (fun f g => f.1 = g.1 ∧ Distinct f.2 g.2) a.fields b.fields) :
    DiffExact a b := by
  have hkeys : ∀ key, key ∈ diffKeys a b ↔ a.valueOf key ≠ b.valueOf key := by
    intro key
    rw [mem_diffKeys]
    have hrel : Option.Rel Distinct (a.valueOf key) (b.valueOf key) := lookup_forall₂ h key
    generalize a.valueOf key = v at hrel ⊢
    generalize b.valueOf key = w at hrel ⊢
    cases hrel with
    | some hvalues => simpa using not_congr hvalues.printed_iff
    | none => exact iff_of_false (fun h => h rfl) fun h => h rfl
  refine ⟨hkeys, ?_⟩
  rw [List.eq_nil_iff_forall_not_mem]
  constructor
  · intro hnone
    apply eq_of_valueOf
    intro key
    exact not_not.mp ((hkeys key).not.mp (hnone key))
  · rintro rfl key hkey
    exact (hkeys key).mp hkey rfl

theorem valueOf_adminToken (c : ServerConfig) :
    c.valueOf (ascii "admin_token") = some (.secret c.adminToken) := rfl

theorem adminToken_mem_diffKeys (a b : ServerConfig) :
    ascii "admin_token" ∈ diffKeys a b ↔ a.adminToken.length ≠ b.adminToken.length := by
  rw [mem_diffKeys, valueOf_adminToken, valueOf_adminToken, Option.map_some, Option.map_some]
  exact not_congr (Option.some_inj.trans masked_eq_iff)

theorem DiffExact.adminToken (h : DiffExact a b) :
    a.adminToken = b.adminToken ∨ a.adminToken.length ≠ b.adminToken.length := by
  rw [or_iff_not_imp_left]
  intro hne
  apply (adminToken_mem_diffKeys a b).mp
  apply (h.keys _).mpr
  rw [valueOf_adminToken, valueOf_adminToken]
  exact fun heq => hne (ConfigValue.secret.inj (Option.some.inj heq))

end ServerConfig

open ServerConfig in
/-- The diff of two loaded configurations is exact if and only if their admin tokens are equal or
differ in length. -/
theorem diffKeys_exact_iff {c c' a b : ServerConfig} {p p' : ConfigParser}
    (ha : c.loadFromParser p = .ok a) (hb : c'.loadFromParser p' = .ok b) :
    DiffExact a b ↔ a.adminToken = b.adminToken ∨ a.adminToken.length ≠ b.adminToken.length := by
  refine ⟨DiffExact.adminToken, fun htoken => ?_⟩
  apply diffExact_of_distinct
  exact fields_distinct ⟨(split_loaded ha).1, (split_loaded hb).1⟩
    ⟨(split_loaded ha).2, (split_loaded hb).2⟩ htoken

/-- A file that sets the admin token only. -/
def tokenFile (token : String) : ConfigParser := { values := [(ascii "admin_token", ascii token)] }

theorem load_tokenFile_one :
    ({} : ServerConfig).loadFromParser (tokenFile "one") = .ok { adminToken := ascii "one" } := by
  decide

theorem load_tokenFile_four :
    ({} : ServerConfig).loadFromParser (tokenFile "four") = .ok { adminToken := ascii "four" } := by
  decide

/-- A token that is replaced by a longer one. -/
theorem diffKeys_exact_iff_longer :
    ServerConfig.DiffExact { adminToken := ascii "one" } { adminToken := ascii "four" } ↔
      ascii "one" = ascii "four" ∨ (ascii "one").length ≠ (ascii "four").length :=
  diffKeys_exact_iff load_tokenFile_one load_tokenFile_four

/-- A token that is replaced by another of its length. -/
theorem replaced_token_unlisted : ¬∀ (c c' a b : ServerConfig) (p p' : ConfigParser),
    c.loadFromParser p = .ok a → c'.loadFromParser p' = .ok b → ServerConfig.DiffExact a b := by
  intro h
  have htwo : ({} : ServerConfig).loadFromParser (tokenFile "two") =
      .ok { adminToken := ascii "two" } := by decide
  have hexact := h {} {} _ _ _ _ load_tokenFile_one htwo
  have htokens := hexact.adminToken
  revert htokens
  decide

end Aevrix.Config
