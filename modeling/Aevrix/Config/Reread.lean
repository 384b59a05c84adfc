import Aevrix.Config.ConfigFile
import Aevrix.Config.CsvLists
import Aevrix.Config.Diff
import Aevrix.Config.Written

/-!
# A configuration read back (`server_config.cpp`, `server_config_store.cpp`)

A file that gives every key of `flatten` the value it has in the live configuration, in any order
and among other lines, is what an operator keeps of it. A reload of such a file always succeeds. It
changes the numbers that `std::stoll` does not read and the lists that begin or end with a blank,
and nothing else (`reread_changes`).
-/

namespace Aevrix.Config
open Incremental Keyed

namespace ConfigValue

/-- The value as a file has it, the secret in clear. -/
def plain : ConfigValue → Bytes
  | number n => decimalText n
  | switch value => boolStr value
  | text value => value
  | secret value => value
  | list values => joinCsv values

/-- The value is read back from its text as it is. -/
def Kept : ConfigValue → Prop
  | number n => n < 2 ^ 63
  | list values => trimBy isConfigSpace (joinCsv values) = joinCsv values
  | switch _ | text _ | secret _ => True

end ConfigValue

/-- Every key is given the value it has, as far as blanks around it do not matter. -/
structure Saves (lines : List ConfigLine) (c : ServerConfig) : Prop where
  wellFormed : ∀ line ∈ lines, line.WellFormed
  values : ∀ key value, c.valueOf key = some value →
    (assigned lines key).map (trimBy isConfigSpace) = some (trimBy isConfigSpace value.plain)

inductive TextKey where
  | host | documentRoot | tlsCertFile | tlsKeyFile | tlsMinVersion | tlsMaxVersion | proxyPass
  | proxyPrefix | logLevel | adminToken
  deriving DecidableEq

namespace TextKey

def name : TextKey → Bytes
  | host => ascii "host"
  | documentRoot => ascii "document_root"
  | tlsCertFile => ascii "tls_cert_file"
  | tlsKeyFile => ascii "tls_key_file"
  | tlsMinVersion => ascii "tls_min_version"
  | tlsMaxVersion => ascii "tls_max_version"
  | proxyPass => ascii "proxy_pass"
  | proxyPrefix => ascii "proxy_prefix"
  | logLevel => ascii "log_level"
  | adminToken => ascii "admin_token"

def value (c : ServerConfig) : TextKey → Bytes
  | host => c.host
  | documentRoot => c.documentRoot
  | tlsCertFile => c.tlsCertFile
  | tlsKeyFile => c.tlsKeyFile
  | tlsMinVersion => c.tlsMinVersion
  | tlsMaxVersion => c.tlsMaxVersion
  | proxyPass => c.proxyPass
  | proxyPrefix => c.proxyPrefix
  | logLevel => c.logLevel
  | adminToken => c.adminToken

end TextKey

inductive ListKey where
  | websocketPaths | websocketAllowedOrigins
  deriving DecidableEq

namespace ListKey

def name : ListKey → Bytes
  | websocketPaths => ascii "websocket_paths"
  | websocketAllowedOrigins => ascii "websocket_allowed_origins"

def value (c : ServerConfig) : ListKey → List Bytes
  | websocketPaths => c.websocketAllowedPaths
  | websocketAllowedOrigins => c.websocketAllowedOrigins

end ListKey

/-! ### Lists -/

theorem length_intercalate (values : List Bytes) : (joinCsv values).length =
    (values.map fun value => value.length + 1).sum - 1 := by
  unfold joinCsv
  induction values with
  | nil => rfl
  | cons first rest ih =>
    cases rest with
    | nil => simp
    | cons second rest =>
      rw [List.intercalate_cons_cons, List.length_append, List.length_append, ih]
      simp only [List.length_singleton, List.map_cons, List.sum_cons]
      omega

/-- Nothing is added to a value that is split and joined. -/
theorem joinCsv_splitCsv_le (value : Bytes) :
    (joinCsv (splitCsv value)).length ≤ value.length := by
  have hwhole : joinCsv (value.splitOn 44) = value := List.intercalate_splitOn 44
  have hpieces (pieces : List Bytes) :
      ((pieces.flatMap elementOf).map fun piece => piece.length + 1).sum ≤
        (pieces.map fun piece => piece.length + 1).sum := by
    induction pieces with
    | nil => exact Nat.le_refl _
    | cons piece pieces ih =>
      have hone : ((elementOf piece).map fun piece => piece.length + 1).sum ≤
          piece.length + 1 := by
        have hless := (trimBy_inside isOws piece).length_le
        unfold elementOf trimOws
        split
        · exact Nat.zero_le _
        · simpa using hless
      rw [List.flatMap_cons, List.map_append, List.sum_append, List.map_cons, List.sum_cons]
      omega
  conv_rhs => rw [← hwhole]
  rw [length_intercalate, length_intercalate, splitCsv_eq]
  have hsum := hpieces (value.splitOn 44)
  omega

theorem isCsvElement_of_mem {value entry : Bytes} (h : entry ∈ splitCsv value) :
    IsCsvElement entry := by
  obtain ⟨hne, hcomma⟩ := split_splitCsv value entry h
  obtain ⟨hmem, -⟩ := List.mem_filter.mp h
  obtain ⟨piece, -, rfl⟩ := List.mem_map.mp hmem
  obtain ⟨⟨first, tail, hfirst, hfront⟩, front, last, hlast, hback⟩ := trimBy_ends hne
  refine ⟨hne, hcomma, fun c hc => ?_, fun c hc => ?_⟩
  · rw [trimOws, hfirst, List.head?_cons] at hc
    rwa [← Option.some.inj hc]
  · rw [trimOws, hlast, List.getLast?_append, List.getLast?_singleton] at hc
    rwa [← Option.some.inj hc]

/-- A list is read back from its text just if the text has no blanks around it. -/
theorem joinCsv_reread_iff {values : List Bytes} (h : ∀ value ∈ values, IsCsvElement value) :
    joinCsv values = joinCsv (splitCsv (trimBy isConfigSpace (joinCsv values))) ↔
      trimBy isConfigSpace (joinCsv values) = joinCsv values := by
  constructor
  · intro heq
    have hless := joinCsv_splitCsv_le (trimBy isConfigSpace (joinCsv values))
    rw [← heq] at hless
    exact (trimBy_inside isConfigSpace (joinCsv values)).eq_of_length_le hless
  · intro htrimmed
    rw [htrimmed, splitCsv_joinCsv h]

theorem elementOf_absolute {piece : Bytes} (h : piece.head? = some 47) :
    ∃ entry, elementOf piece = [entry] ∧ entry.head? = some 47 := by
  obtain ⟨tail, rfl⟩ : ∃ tail, piece = 47 :: tail := by
    cases piece with
    | nil => cases h
    | cons c tail => exact ⟨tail, by rw [Option.some.inj h]⟩
  have htrimmed : trimOws (47 :: tail) = 47 :: tail.rdropWhile isOws := by
    rw [trimOws, trimBy, List.dropWhile_cons_of_neg (by decide)]
    exact rdropWhile_behind (by decide) [] tail
  refine ⟨47 :: tail.rdropWhile isOws, ?_, rfl⟩
  rw [elementOf, htrimmed, if_neg (List.cons_ne_nil _ _)]

theorem splitCsv_absolute {pieces : List Bytes} (hcomma : ∀ piece ∈ pieces, 44 ∉ piece)
    (hne : pieces ≠ []) (habsolute : ∀ piece ∈ pieces, piece.head? = some 47) :
    splitCsv (joinCsv pieces) ≠ [] ∧
      ∀ path ∈ splitCsv (joinCsv pieces), path.head? = some 47 := by
  rw [splitCsv_eq, joinCsv, List.splitOn_intercalate 44 hcomma hne]
  constructor
  · obtain ⟨piece, hpiece⟩ := List.exists_mem_of_ne_nil pieces hne
    obtain ⟨entry, helement, -⟩ := elementOf_absolute (habsolute piece hpiece)
    refine List.ne_nil_of_mem (a := entry) (List.mem_flatMap.mpr ⟨piece, hpiece, ?_⟩)
    rw [helement]
    exact List.mem_singleton_self entry
  · intro path hpath
    obtain ⟨piece, hpiece, hmem⟩ := List.mem_flatMap.mp hpath
    obtain ⟨entry, helement, hhead⟩ := elementOf_absolute (habsolute piece hpiece)
    rw [helement, List.mem_singleton] at hmem
    rwa [hmem]

theorem joinCsv_concat (values : List Bytes) :
    ∃ front, ∀ value, joinCsv (values ++ [value]) = front ++ value := by
  unfold joinCsv
  induction values with
  | nil => exact ⟨[], fun value => List.intercalate_singleton⟩
  | cons first rest ih =>
    obtain ⟨front, hfront⟩ := ih
    refine ⟨first ++ [44] ++ front, fun value => ?_⟩
    obtain ⟨second, tail, hcons⟩ := List.exists_cons_of_ne_nil
      (List.append_ne_nil_of_right_ne_nil rest (List.cons_ne_nil value []))
    rw [List.cons_append, hcons, List.intercalate_cons_cons, ← hcons, hfront,
      List.append_assoc, List.append_assoc, List.append_assoc]

/-- Absolute paths stay so when the blanks around their list are taken away. -/
theorem absolute_reread {paths : List Bytes} (hcomma : ∀ path ∈ paths, 44 ∉ path)
    (hne : paths ≠ []) (habsolute : ∀ path ∈ paths, path.head? = some 47) :
    splitCsv (trimBy isConfigSpace (joinCsv paths)) ≠ [] ∧
      ∀ path ∈ splitCsv (trimBy isConfigSpace (joinCsv paths)), path.head? = some 47 := by
  obtain ⟨rest, last, rfl⟩ := List.eq_nil_or_concat' paths |>.resolve_left hne
  obtain ⟨tail, rfl⟩ : ∃ tail, last = 47 :: tail := by
    have hlast := habsolute last (List.mem_append_right _ List.mem_cons_self)
    cases last with
    | nil => cases hlast
    | cons c tail => exact ⟨tail, by rw [Option.some.inj hlast]⟩
  obtain ⟨front, hfront⟩ := joinCsv_concat rest
  have hhead : ∃ behind, front ++ 47 :: tail = 47 :: behind := by
    cases rest with
    | nil =>
      have hnil := hfront (47 :: tail)
      rw [joinCsv, List.nil_append, List.intercalate_singleton] at hnil
      exact ⟨tail, hnil.symm⟩
    | cons first rest =>
      have hfirst := habsolute first List.mem_cons_self
      obtain ⟨second, others, hcons⟩ := List.exists_cons_of_ne_nil
        (List.append_ne_nil_of_right_ne_nil rest (List.cons_ne_nil (47 :: tail) []))
      have hjoined := hfront (47 :: tail)
      rw [joinCsv, List.cons_append, hcons, List.intercalate_cons_cons] at hjoined
      cases first with
      | nil => cases hfirst
      | cons c first =>
        rw [← hjoined, Option.some.inj hfirst]
        exact ⟨_, rfl⟩
  have htrimmed : trimBy isConfigSpace (joinCsv (rest ++ [47 :: tail])) =
      joinCsv (rest ++ [47 :: tail.rdropWhile isConfigSpace]) := by
    obtain ⟨behind, hbehind⟩ := hhead
    rw [hfront, hfront, trimBy, hbehind, List.dropWhile_cons_of_neg (by decide), ← hbehind]
    exact rdropWhile_behind (by decide) front tail
  rw [htrimmed]
  have hkept : ∀ path ∈ rest ++ [47 :: tail.rdropWhile isConfigSpace],
      44 ∉ path ∧ path.head? = some 47 := by
    intro path hpath
    rcases List.mem_append.mp hpath with hrest | hlast
    · exact ⟨hcomma path (List.mem_append_left _ hrest),
        habsolute path (List.mem_append_left _ hrest)⟩
    · obtain rfl := List.mem_singleton.mp hlast
      refine ⟨fun hin => ?_, rfl⟩
      apply hcomma (47 :: tail) (List.mem_append_right _ List.mem_cons_self)
      rcases List.mem_cons.mp hin with heq | hmem
      · cases heq
      · exact List.mem_cons_of_mem _ ((List.rdropWhile_prefix _ _).subset hmem)
  exact splitCsv_absolute (fun path hpath => (hkept path hpath).1)
    (List.append_ne_nil_of_right_ne_nil rest (List.cons_ne_nil _ [])) fun path hpath =>
      (hkept path hpath).2

theorem mem_joinCsv {d : Byte} {values : List Bytes} (h : d ∈ joinCsv values) :
    d = 44 ∨ ∃ value ∈ values, d ∈ value := by
  unfold joinCsv at h
  induction values with
  | nil => cases h
  | cons first rest ih =>
    cases rest with
    | nil =>
      rw [List.intercalate_singleton] at h
      exact Or.inr ⟨first, List.mem_cons_self, h⟩
    | cons second rest =>
      rw [List.intercalate_cons_cons, List.mem_append, List.mem_append,
        List.mem_singleton] at h
      rcases h with (hfirst | hcomma) | hrest
      · exact Or.inr ⟨first, List.mem_cons_self, hfirst⟩
      · exact Or.inl hcomma
      · rcases ih hrest with hcomma | ⟨value, hvalue, hmem⟩
        · exact Or.inl hcomma
        · exact Or.inr ⟨value, List.mem_cons_of_mem _ hvalue, hmem⟩

theorem lookup_reverse {values : List (Bytes × Bytes)} (hnodup : (values.map Prod.fst).Nodup)
    {key value : Bytes} (h : (key, value) ∈ values) : values.reverse.lookup key = some value := by
  obtain ⟨before, behind, rfl⟩ := List.append_of_mem h
  rw [List.map_append, List.map_cons, List.nodup_append] at hnodup
  have hnew : key ∉ behind.map Prod.fst := (List.nodup_cons.mp hnodup.2.1).1
  apply List.lookup_eq_some_iff.mpr
  refine ⟨behind.reverse, before.reverse, by simp, fun e he => ?_⟩
  rw [bne_iff_ne]
  rintro rfl
  exact hnew (List.mem_map_of_mem (List.mem_reverse.mp he))

namespace ServerConfig
variable {c c' : ServerConfig} {p : ConfigParser}

/-! ### What is loaded before the checks -/

def loaded (c : ServerConfig) (p : ConfigParser) : ServerConfig := (c.loadServer p).loadFeatures p

theorem loaded_int (c : ServerConfig) (p : ConfigParser) (key : IntKey) :
    (key.value (c.loaded p) : ℤ) =
      p.getInt key.name (toSigned (key.value c)) % 2 ^ key.bits := by
  cases key <;> first | exact ofInt16 _ | exact ofInt32 _ | exact ofInt64 _

theorem loaded_bool (c : ServerConfig) (p : ConfigParser) (key : BoolKey) :
    key.value (c.loaded p) = p.getBool key.name (key.value c) := by
  cases key <;> rfl

theorem loaded_text (c : ServerConfig) (p : ConfigParser) (key : TextKey) :
    key.value (c.loaded p) = p.getString key.name (key.value c) := by
  cases key <;> rfl

theorem loaded_list (c : ServerConfig) (p : ConfigParser) (key : ListKey) :
    key.value (c.loaded p) = splitCsv (p.getString key.name (joinCsv (key.value c))) := by
  cases key <;> rfl

/-- What a load that succeeds has checked. -/
structure Valid (c : ServerConfig) : Prop where
  level : canonicalLevel c.logLevel = some c.logLevel
  tls : c.checkTls = .ok ()
  proxy : c.checkProxy = .ok ()
  websocket : c.checkWebsocket = .ok ()
  server : c.checkServer = .ok ()

theorem canonicalLevel_idem {name level : Bytes} (h : canonicalLevel name = some level) :
    canonicalLevel level = some level := by
  unfold canonicalLevel at h
  dsimp only at h
  split_ifs at h
  all_goals
    rw [← Option.some.inj h]
    decide

theorem bind_ok_iff {ε α β : Type} {x : Except ε α} {f : α → Except ε β} {r : β} :
    x >>= f = .ok r ↔ ∃ a, x = .ok a ∧ f a = .ok r := by
  cases x with
  | error e => exact iff_of_false (fun h => by cases h) fun ⟨_, h, _⟩ => by cases h
  | ok a => exact ⟨fun h => ⟨a, rfl, h⟩, fun ⟨_, ha, h⟩ => by cases ha; exact h⟩

theorem checkLogLevel_ok_iff : c.checkLogLevel = .ok c' ↔
    canonicalLevel c.logLevel = some c'.logLevel ∧ c' = { c with logLevel := c'.logLevel } := by
  rw [checkLogLevel]
  cases canonicalLevel c.logLevel with
  | none => exact iff_of_false (fun h => by cases h) fun h => by cases h.1
  | some level =>
    constructor
    · intro h
      rw [← Except.ok.inj h]
      exact ⟨rfl, rfl⟩
    · rintro ⟨hlevel, hc⟩
      obtain rfl := Option.some.inj hlevel
      exact congrArg Except.ok hc.symm

theorem loadFromParser_ok_iff : c.loadFromParser p = .ok c' ↔
    canonicalLevel (c.loaded p).logLevel = some c'.logLevel ∧
      c' = { c.loaded p with logLevel := c'.logLevel } ∧ Valid c' := by
  have hload : c.loadFromParser p = (do
      (c.loaded p).checkTls
      let c ← (c.loaded p).checkLogLevel
      c.checkProxy
      c.checkWebsocket
      c.checkServer
      return c) := rfl
  simp only [hload, bind_ok_iff, checkLogLevel_ok_iff]
  constructor
  · rintro ⟨_, htls, checked, ⟨hlevel, hchecked⟩, _, hproxy, _, hwebsocket, _, hserver, hresult⟩
    obtain rfl : checked = c' := Except.ok.inj hresult
    refine ⟨hlevel, hchecked, canonicalLevel_idem hlevel, ?_, hproxy, hwebsocket, hserver⟩
    rw [hchecked]
    exact htls
  · rintro ⟨hlevel, hc', hvalid⟩
    refine ⟨(), ?_, c', ⟨hlevel, hc'⟩, (), hvalid.proxy, (), hvalid.websocket, (), hvalid.server,
      rfl⟩
    have htls := hvalid.tls
    rw [hc'] at htls
    exact htls

/-! ### What the checks ask -/

theorem guard_ok_iff {p : Prop} [Decidable p] {error : Bytes} {x : Except Bytes Unit} :
    (if p then .error error else x) = .ok () ↔ ¬p ∧ x = .ok () := by
  by_cases hp : p
  · rw [if_pos hp]
    exact iff_of_false (fun h => by cases h) fun h => h.1 hp
  · rw [if_neg hp]
    exact (and_iff_right hp).symm

/-- The numbers that must be positive. -/
def positiveKeys : List IntKey :=
  [.port, .workers, .headerTimeoutMs, .bodyTimeoutMs, .keepAliveTimeoutMs, .writeTimeoutMs,
    .maxConnections, .maxBufferSize, .maxRequestBody]

theorem checkServer_ok_iff : c.checkServer = .ok () ↔ ∀ key ∈ positiveKeys, key.value c ≠ 0 := by
  simp only [checkServer, guard_ok_iff, positiveKeys, List.forall_mem_cons, IntKey.value,
    ← UInt16.toNat_inj, ← UInt32.toNat_inj, ← UInt64.toNat_inj]
  simp

theorem checkWebsocket_ok_iff : c.checkWebsocket = .ok () ↔ (c.websocketEnabled = true →
    c.websocketAllowedPaths ≠ [] ∧ (∀ path ∈ c.websocketAllowedPaths, path.head? = some 47) ∧
      IntKey.websocketMaxMessageBytes.value c ≠ 0 ∧
      IntKey.websocketCloseTimeoutMs.value c ≠ 0) := by
  unfold checkWebsocket
  by_cases henabled : c.websocketEnabled = true
  · rw [if_pos henabled, imp_iff_right henabled]
    simp only [guard_ok_iff, IntKey.value, ← UInt32.toNat_inj, ← UInt64.toNat_inj]
    simp
  · rw [if_neg henabled]
    exact iff_of_true rfl fun h => absurd h henabled

/-! ### What is read back -/

/-- What a file loads over the defaults, before the checks. -/
def reread (lines : List ConfigLine) : ServerConfig :=
  ({} : ServerConfig).loaded (.parseFile (fileBytes lines))

theorem lookup_saved {lines : List ConfigLine} (hsaves : Saves lines c) {key : Bytes}
    {value : ConfigValue} (hvalue : c.valueOf key = some value) :
    (ConfigParser.parseFile (fileBytes lines)).values.lookup key =
      some (trimBy isConfigSpace value.plain) := by
  rw [parseFile_lookup hsaves.wellFormed, hsaves.values key value hvalue]

theorem valueOf_int (c : ServerConfig) (key : IntKey) :
    c.valueOf key.name = some (.number (key.value c)) := by
  cases key <;> rfl

theorem valueOf_bool (c : ServerConfig) (key : BoolKey) :
    c.valueOf key.name = some (.switch (key.value c)) := by
  cases key <;> rfl

theorem valueOf_text (c : ServerConfig) (key : TextKey) :
    ∃ value : ConfigValue, c.valueOf key.name = some value ∧ value.plain = key.value c := by
  cases key <;> exact ⟨_, rfl, rfl⟩

theorem valueOf_list (c : ServerConfig) (key : ListKey) :
    c.valueOf key.name = some (.list (key.value c)) := by
  cases key <;> rfl

theorem trimBy_decimalText (n : ℕ) :
    trimBy isConfigSpace (decimalText n) = decimalText n := by
  obtain ⟨-, hdigits, -⟩ := isDecimal_decimalText n
  refine trimBy_of_none fun c hc => ?_
  have hdigit := hdigits c hc
  unfold isDigit at hdigit
  unfold isConfigSpace
  grind

theorem reread_int {lines : List ConfigLine} (hsaves : Saves lines c) (key : IntKey) :
    key.value (reread lines) =
      if key.value c < 2 ^ 63 then key.value c else key.value ({} : ServerConfig) := by
  have hlookup := lookup_saved hsaves (valueOf_int c key)
  rw [show (ConfigValue.number (key.value c)).plain = decimalText (key.value c) from rfl,
    trimBy_decimalText] at hlookup
  have hloaded := loaded_int {} (.parseFile (fileBytes lines)) key
  rw [getInt_written hlookup (.plain (isDecimal_decimalText _))] at hloaded
  have hlt : (key.value c : ℤ) < 2 ^ key.bits := by exact_mod_cast value_lt c key
  apply Int.natCast_inj.mp
  rw [reread, hloaded]
  by_cases hsmall : key.value c < 2 ^ 63
  · rw [if_pos ⟨by omega, by exact_mod_cast hsmall⟩, if_pos hsmall,
      Int.emod_eq_of_lt (Int.natCast_nonneg _) hlt]
  · rw [if_neg fun h => hsmall (by exact_mod_cast h.2), if_neg hsmall, default_loaded]

theorem reread_bool {lines : List ConfigLine} (hsaves : Saves lines c) (key : BoolKey) :
    key.value (reread lines) = key.value c := by
  have hlookup := lookup_saved hsaves (valueOf_bool c key)
  have hword : boolWord (trimBy isConfigSpace (ConfigValue.switch (key.value c)).plain) =
      some (key.value c) := by
    cases key.value c <;> decide
  rw [reread, loaded_bool, ConfigParser.getBool, hlookup, Option.bind_some, hword]
  rfl

theorem reread_text {lines : List ConfigLine} (hsaves : Saves lines c) (key : TextKey) :
    key.value (reread lines) = trimBy isConfigSpace (key.value c) := by
  obtain ⟨value, hvalue, hplain⟩ := valueOf_text c key
  rw [reread, loaded_text, ConfigParser.getString, lookup_saved hsaves hvalue, hplain]
  rfl

theorem reread_list {lines : List ConfigLine} (hsaves : Saves lines c) (key : ListKey) :
    key.value (reread lines) =
      splitCsv (trimBy isConfigSpace (joinCsv (key.value c))) := by
  rw [reread, loaded_list, ConfigParser.getString, lookup_saved hsaves (valueOf_list c key)]
  rfl

/-! ### What was loaded from a file -/

theorem value_parsed {content key value : Bytes}
    (h : (ConfigParser.parseFile content).values.lookup key = some value) :
    trimBy isConfigSpace value = value ∧ LF ∉ value := by
  have hfold (lines : List Bytes) (hlines : ∀ line ∈ lines, LF ∉ line) :
      ∀ e ∈ (lines.foldl ConfigParser.parseLine {}).values,
        trimBy isConfigSpace e.2 = e.2 ∧ LF ∉ e.2 := by
    induction lines using List.reverseRecOn with
    | nil =>
      intro e he
      cases he
    | append_singleton lines line ih =>
      have hbefore := ih fun line hline => hlines line (List.mem_append_left _ hline)
      have hline := hlines line (List.mem_append_right _ List.mem_cons_self)
      rw [List.foldl_append, List.foldl_cons, List.foldl_nil]
      unfold ConfigParser.parseLine
      dsimp only
      split
      · exact hbefore
      split
      · split
        · exact hbefore
        · intro e he
          rcases List.mem_append.mp he with hold | hnew
          · exact hbefore e (List.mem_filter.mp hold).1
          · rw [List.mem_singleton.mp hnew]
            refine ⟨trimBy_idem _ _, fun hin => hline ?_⟩
            have hbehind := List.mem_of_mem_drop (mem_of_mem_trimBy hin)
            exact mem_of_mem_trimBy ((List.dropWhile_suffix _).subset hbehind)
      · exact hbefore
  obtain ⟨before, behind, hvalues, -⟩ := List.lookup_eq_some_iff.mp h
  refine hfold (content.splitOn LF) (fun line hline => notMem_of_mem_splitOn hline)
    (key, value) ?_
  rw [show (content.splitOn LF).foldl ConfigParser.parseLine {} =
    ConfigParser.parseFile content from rfl, hvalues]
  exact List.mem_append_right _ List.mem_cons_self

theorem text_loaded {content : Bytes}
    (hlive : ({} : ServerConfig).loadFromParser (.parseFile content) = .ok c) (key : TextKey) :
    trimBy isConfigSpace (key.value c) = key.value c ∧ LF ∉ key.value c := by
  obtain ⟨hlevel, hc, -⟩ := loadFromParser_ok_iff.mp hlive
  by_cases hkey : key = .logLevel
  · rw [hkey]
    show trimBy isConfigSpace c.logLevel = c.logLevel ∧ LF ∉ c.logLevel
    unfold canonicalLevel at hlevel
    dsimp only at hlevel
    split_ifs at hlevel
    all_goals
      rw [← Option.some.inj hlevel]
      decide
  · have hloaded : key.value c =
        (ConfigParser.parseFile content).getString key.name (key.value ({} : ServerConfig)) := by
      rw [← loaded_text, hc]
      cases key <;> first | rfl | exact absurd rfl hkey
    rw [hloaded, ConfigParser.getString]
    cases hlookup : (ConfigParser.parseFile content).values.lookup key.name with
    | none => cases key <;> decide
    | some value => exact value_parsed hlookup

theorem list_loaded {content : Bytes}
    (hlive : ({} : ServerConfig).loadFromParser (.parseFile content) = .ok c) (key : ListKey) :
    ∃ text, key.value c = splitCsv text ∧ LF ∉ text := by
  obtain ⟨-, hc, -⟩ := loadFromParser_ok_iff.mp hlive
  have hloaded : key.value c = key.value (({} : ServerConfig).loaded (.parseFile content)) := by
    rw [hc]
    cases key <;> rfl
  refine ⟨_, hloaded.trans (loaded_list {} _ key), ?_⟩
  rw [ConfigParser.getString]
  cases hlookup : (ConfigParser.parseFile content).values.lookup key.name with
  | none => cases key <;> decide
  | some value => exact (value_parsed hlookup).2

theorem isCsvElement_loaded {content : Bytes}
    (hlive : ({} : ServerConfig).loadFromParser (.parseFile content) = .ok c) (key : ListKey) :
    ∀ value ∈ key.value c, IsCsvElement value := by
  obtain ⟨text, htext, -⟩ := list_loaded hlive key
  rw [htext]
  exact fun value hvalue => isCsvElement_of_mem hvalue

/-- What relates the values under every key. -/
theorem forall₂_fields {R : ConfigValue → ConfigValue → Prop}
    (hint : ∀ key : IntKey, R (.number (key.value c)) (.number (key.value c')))
    (hbool : ∀ key : BoolKey, R (.switch (key.value c)) (.switch (key.value c')))
    (htext : ∀ key : TextKey, R (.text (key.value c)) (.text (key.value c')))
    (htoken : R (.secret c.adminToken) (.secret c'.adminToken))
    (hlist : ∀ key : ListKey, R (.list (key.value c)) (.list (key.value c'))) :
    List.Forall₂ (fun f g => f.1 = g.1 ∧ R f.2 g.2) c.fields c'.fields := by
  simp only [fields, List.forall₂_cons, List.forall₂_nil_right_iff, true_and, and_true]
  exact ⟨htext .host, hint .port, hint .workers, htext .documentRoot, hint .headerTimeoutMs,
    hint .bodyTimeoutMs, hint .keepAliveTimeoutMs, hint .writeTimeoutMs, hint .maxConnections,
    hint .maxBufferSize, hint .maxRequestBody, htext .logLevel, hbool .adminApiEnabled, htoken,
    hbool .tlsEnabled, hint .tlsPort, htext .tlsCertFile, htext .tlsKeyFile, htext .tlsMinVersion,
    htext .tlsMaxVersion, hbool .proxyEnabled, htext .proxyPass, htext .proxyPrefix,
    hbool .proxyStripPrefix, hint .proxyConnectTimeoutMs, hint .proxyReadTimeoutMs,
    hint .proxyMaxIdleConnections, hint .proxyMaxResponseBytes, hint .proxyIdleTimeoutMs,
    hbool .websocketEnabled, hlist .websocketPaths, hint .websocketMaxMessageBytes,
    hint .websocketCloseTimeoutMs, hint .websocketPingIntervalMs, hlist .websocketAllowedOrigins⟩

/-! ### The reload -/

/-- What a reload of the file publishes. -/
def rereadLive (lines : List ConfigLine) (c : ServerConfig) : ServerConfig :=
  { reread lines with logLevel := c.logLevel }

section
variable {content : Bytes} {lines : List ConfigLine}

theorem rereadLive_int (hsaves : Saves lines c) (key : IntKey) :
    key.value (rereadLive lines c) =
      if key.value c < 2 ^ 63 then key.value c else key.value ({} : ServerConfig) := by
  rw [← reread_int hsaves key]
  cases key <;> rfl

theorem rereadLive_bool (hsaves : Saves lines c) (key : BoolKey) :
    key.value (rereadLive lines c) = key.value c := by
  rw [← reread_bool hsaves key]
  cases key <;> rfl

theorem rereadLive_text
    (hlive : ({} : ServerConfig).loadFromParser (.parseFile content) = .ok c)
    (hsaves : Saves lines c) (key : TextKey) : key.value (rereadLive lines c) = key.value c := by
  have hread := reread_text hsaves key
  rw [(text_loaded hlive key).1] at hread
  by_cases hkey : key = .logLevel
  · rw [hkey]
    rfl
  · rw [← hread]
    cases key <;> first | rfl | exact absurd rfl hkey

theorem rereadLive_list (hsaves : Saves lines c) (key : ListKey) :
    key.value (rereadLive lines c) =
      splitCsv (trimBy isConfigSpace (joinCsv (key.value c))) := by
  rw [← reread_list hsaves key]
  cases key <;> rfl

theorem rereadLive_positive (hsaves : Saves lines c) {key : IntKey} (hkey : key.value c ≠ 0)
    (hdefault : key.value ({} : ServerConfig) ≠ 0) : key.value (rereadLive lines c) ≠ 0 := by
  rw [rereadLive_int hsaves]
  split
  · exact hkey
  · exact hdefault

theorem valid_rereadLive
    (hlive : ({} : ServerConfig).loadFromParser (.parseFile content) = .ok c)
    (hsaves : Saves lines c) : Valid (rereadLive lines c) := by
  obtain ⟨-, -, hvalid⟩ := loadFromParser_ok_iff.mp hlive
  have htext := rereadLive_text hlive hsaves
  have hbool := rereadLive_bool hsaves
  have hport : (rereadLive lines c).tlsPort = c.tlsPort := by
    apply UInt16.toNat_inj.mp
    have hread := rereadLive_int hsaves .tlsPort
    have hsmall : c.tlsPort.toNat < 2 ^ 63 := lt_trans (UInt16.toNat_lt _) (by decide)
    rwa [show IntKey.tlsPort.value c = c.tlsPort.toNat from rfl, if_pos hsmall] at hread
  refine ⟨hvalid.level, ?_, ?_, ?_, ?_⟩
  · have hsame : (rereadLive lines c).checkTls = c.checkTls := by
      simp only [checkTls, hport, show (rereadLive lines c).tlsEnabled = _ from hbool .tlsEnabled,
        show (rereadLive lines c).tlsCertFile = _ from htext .tlsCertFile,
        show (rereadLive lines c).tlsKeyFile = _ from htext .tlsKeyFile]
      rfl
    exact hsame.trans hvalid.tls
  · have hsame : (rereadLive lines c).checkProxy = c.checkProxy := by
      simp only [checkProxy,
        show (rereadLive lines c).proxyEnabled = _ from hbool .proxyEnabled,
        show (rereadLive lines c).proxyPass = _ from htext .proxyPass,
        show (rereadLive lines c).proxyPrefix = _ from htext .proxyPrefix]
      rfl
    exact hsame.trans hvalid.proxy
  · apply checkWebsocket_ok_iff.mpr
    intro henabled
    obtain ⟨hne, habsolute, hmessage, hclose⟩ := checkWebsocket_ok_iff.mp hvalid.websocket
      ((hbool .websocketEnabled).symm.trans henabled)
    have hcomma : ∀ path ∈ c.websocketAllowedPaths, 44 ∉ path := fun path hpath =>
      (isCsvElement_loaded hlive .websocketPaths path hpath).2.1
    have hpaths := absolute_reread hcomma hne habsolute
    have hread : (rereadLive lines c).websocketAllowedPaths =
        splitCsv (trimBy isConfigSpace (joinCsv c.websocketAllowedPaths)) :=
      rereadLive_list hsaves .websocketPaths
    rw [← hread] at hpaths
    exact ⟨hpaths.1, hpaths.2, rereadLive_positive hsaves hmessage (by decide),
      rereadLive_positive hsaves hclose (by decide)⟩
  · apply checkServer_ok_iff.mpr
    intro key hkey
    have hdefault : ∀ key ∈ positiveKeys, key.value ({} : ServerConfig) ≠ 0 := by decide
    exact rereadLive_positive hsaves (checkServer_ok_iff.mp hvalid.server key hkey)
      (hdefault key hkey)

theorem loadFromParser_saved
    (hlive : ({} : ServerConfig).loadFromParser (.parseFile content) = .ok c)
    (hsaves : Saves lines c) :
    ({} : ServerConfig).loadFromParser (.parseFile (fileBytes lines)) =
      .ok (rereadLive lines c) := by
  apply loadFromParser_ok_iff.mpr
  refine ⟨?_, rfl, valid_rereadLive hlive hsaves⟩
  have hread : (reread lines).logLevel = trimBy isConfigSpace c.logLevel :=
    reread_text hsaves .logLevel
  rw [show trimBy isConfigSpace c.logLevel = c.logLevel from (text_loaded hlive .logLevel).1] at hread
  show canonicalLevel (reread lines).logLevel = some c.logLevel
  rw [hread]
  exact (loadFromParser_ok_iff.mp hlive).2.2.level

theorem validated_saved {files : Files}
    (hlive : ({} : ServerConfig).loadFromParser (.parseFile content) = .ok c)
    (hsaves : Saves lines c) (htls : c.tlsEnabled = true →
      files.readable c.tlsCertFile = true ∧ files.readable c.tlsKeyFile = true) :
    validated (.parseFile (fileBytes lines)) files = .ok (rereadLive lines c) := by
  have hload := loadFromParser_saved hlive hsaves
  have henabled : (rereadLive lines c).tlsEnabled = c.tlsEnabled :=
    rereadLive_bool hsaves .tlsEnabled
  have hcert : (rereadLive lines c).tlsCertFile = c.tlsCertFile :=
    rereadLive_text hlive hsaves .tlsCertFile
  have hkey : (rereadLive lines c).tlsKeyFile = c.tlsKeyFile :=
    rereadLive_text hlive hsaves .tlsKeyFile
  have hreadable : (c.tlsEnabled && (!files.readable c.tlsCertFile ||
      !files.readable c.tlsKeyFile)) = false := by
    cases hon : c.tlsEnabled with
    | false => rfl
    | true =>
      obtain ⟨hcertReadable, hkeyReadable⟩ := htls hon
      rw [hcertReadable, hkeyReadable]
      rfl
  simp only [validated, hload, henabled, hcert, hkey, hreadable]
  rfl

/-- Under each key the reload has another text just if the value is not kept. -/
theorem fields_reread
    (hlive : ({} : ServerConfig).loadFromParser (.parseFile content) = .ok c)
    (hsaves : Saves lines c) :
    List.Forall₂ (fun f g => f.1 = g.1 ∧ (f.2.printed ≠ g.2.printed ↔ ¬f.2.Kept)) c.fields
      (rereadLive lines c).fields := by
  have hint (key : IntKey) : (decimalText (key.value c) ≠
      decimalText (key.value (rereadLive lines c)) ↔ ¬key.value c < 2 ^ 63) := by
    rw [rereadLive_int hsaves]
    refine not_congr ⟨fun heq => ?_, fun hsmall => by rw [if_pos hsmall]⟩
    by_contra hlarge
    rw [if_neg hlarge] at heq
    rw [decimalText_injective heq] at hlarge
    exact hlarge (by cases key <;> decide)
  have hbool (key : BoolKey) : (boolStr (key.value c) ≠
      boolStr (key.value (rereadLive lines c)) ↔ ¬True) := by
    rw [rereadLive_bool hsaves]
    simp
  have htext (key : TextKey) : (key.value c ≠ key.value (rereadLive lines c) ↔ ¬True) := by
    rw [rereadLive_text hlive hsaves]
    simp
  have htoken : (masked c.adminToken ≠ masked (rereadLive lines c).adminToken ↔ ¬True) := by
    rw [show (rereadLive lines c).adminToken = _ from rereadLive_text hlive hsaves .adminToken]
    simp [TextKey.value]
  have hlist (key : ListKey) : (joinCsv (key.value c) ≠
      joinCsv (key.value (rereadLive lines c)) ↔
        ¬trimBy isConfigSpace (joinCsv (key.value c)) = joinCsv (key.value c)) := by
    rw [rereadLive_list hsaves]
    exact not_congr (joinCsv_reread_iff (isCsvElement_loaded hlive key))
  exact forall₂_fields (R := fun v w => v.printed ≠ w.printed ↔ ¬v.Kept) hint hbool htext htoken
    hlist

theorem mem_diffKeys_reread
    (hlive : ({} : ServerConfig).loadFromParser (.parseFile content) = .ok c)
    (hsaves : Saves lines c) (key : Bytes) : key ∈ diffKeys c (rereadLive lines c) ↔
      ∃ value, c.valueOf key = some value ∧ ¬value.Kept := by
  rw [mem_diffKeys]
  have hrel : Option.Rel (fun v w : ConfigValue => v.printed ≠ w.printed ↔ ¬v.Kept)
      (c.valueOf key) ((rereadLive lines c).valueOf key) :=
    lookup_forall₂ (fields_reread hlive hsaves) key
  generalize c.valueOf key = v at hrel ⊢
  generalize (rereadLive lines c).valueOf key = w at hrel ⊢
  cases hrel with
  | some hvalues => simpa using hvalues
  | none => simp

theorem rereadLive_eq_iff
    (hlive : ({} : ServerConfig).loadFromParser (.parseFile content) = .ok c)
    (hsaves : Saves lines c) : diffKeys c (rereadLive lines c) = [] ↔
      c = rereadLive lines c := by
  have htoken : c.adminToken = (rereadLive lines c).adminToken :=
    (rereadLive_text hlive hsaves .adminToken).symm
  have hlive' := loadFromParser_saved hlive hsaves
  exact (diffExact_of_distinct (fields_distinct
    ⟨(split_loaded hlive).1, (split_loaded hlive').1⟩
    ⟨(split_loaded hlive).2, (split_loaded hlive').2⟩ (Or.inl htoken))).empty

end
end ServerConfig

open ServerConfig in
/-- A reload of a file that opens and saves the live configuration succeeds, provided the TLS files
can be read when TLS is on; it changes the numbers beyond what `std::stoll` reads and the lists with
blanks around them, and nothing else. -/
theorem reread_changes {s : ServerConfigStore} {content path : Bytes} {lines : List ConfigLine}
    {files : Files}
    (hlive : ({} : ServerConfig).loadFromParser (.parseFile content) = .ok s.snapshot)
    (hsaves : Saves lines s.snapshot) (hpath : path ≠ []) (hopens : files.opens path = true)
    (hcontent : files.content path = some (fileBytes lines))
    (htls : s.snapshot.tlsEnabled = true → files.readable s.snapshot.tlsCertFile = true ∧
      files.readable s.snapshot.tlsKeyFile = true) :
    (s.tryReload path files).2.success = true ∧
      (∀ key, key ∈ (s.tryReload path files).2.changes ↔
        ∃ value, s.snapshot.valueOf key = some value ∧ ¬value.Kept) ∧
      ((s.tryReload path files).1.snapshot = s.snapshot ↔
        ∀ key value, s.snapshot.valueOf key = some value → value.Kept) := by
  have hvalidated := validated_saved hlive hsaves htls
  have hreload : s.tryReload path files = s.publish (rereadLive lines s.snapshot) path := by
    simp only [ServerConfigStore.tryReload, if_neg hpath, hopens, hcontent,
      ServerConfigStore.tryReloadFromParser, hvalidated]
    rfl
  have hsnapshot : (s.tryReload path files).1.snapshot = rereadLive lines s.snapshot := by
    rw [hreload]
    exact List.getElem_concat_length rfl _
  have hchanges : ∀ key, key ∈ (s.tryReload path files).2.changes ↔
      ∃ value, s.snapshot.valueOf key = some value ∧ ¬value.Kept := by
    intro key
    rw [hreload, changes_publish]
    exact mem_diffKeys_reread hlive hsaves key
  refine ⟨by rw [hreload]; rfl, hchanges, ?_⟩
  rw [hsnapshot, eq_comm, ← rereadLive_eq_iff hlive hsaves, List.eq_nil_iff_forall_not_mem]
  constructor
  · intro hnone key value hvalue
    by_contra hlost
    exact hnone key ((mem_diffKeys_reread hlive hsaves key).mpr ⟨value, hvalue, hlost⟩)
  · intro hkept key hchanged
    obtain ⟨value, hvalue, hlost⟩ := (mem_diffKeys_reread hlive hsaves key).mp hchanged
    exact hlost (hkept key value hvalue)

/-! ### A file that saves a configuration -/

namespace ServerConfig

/-- Every key on a line of its own. -/
def written (c : ServerConfig) : List ConfigLine :=
  c.fields.map fun f => .assign [] f.1 [32] (32 :: f.2.plain)

theorem isKey_fields (c : ServerConfig) : ∀ key ∈ c.fields.map Prod.fst, ConfigLine.IsKey key := by
  have hkeys : ∀ key ∈ ({} : ServerConfig).fields.map Prod.fst, key ≠ [] ∧
      trimBy isConfigSpace key = key ∧ 61 ∉ key ∧ key.head? ≠ some 35 ∧ LF ∉ key := by
    decide +kernel
  intro key hkey
  rw [keys_fields c {}] at hkey
  obtain ⟨hne, htrimmed, hequals, hcomment, hline⟩ := hkeys key hkey
  exact ⟨hne, htrimmed, hequals, hcomment, hline⟩

theorem plain_line {content : Bytes}
    (hlive : ({} : ServerConfig).loadFromParser (.parseFile content) = .ok c) :
    ∀ f ∈ c.fields, LF ∉ f.2.plain := by
  have hint (key : IntKey) : LF ∉ decimalText (key.value c) := fun hin =>
    absurd ((isDecimal_decimalText (key.value c)).2.1 LF hin) (by decide)
  have hbool (key : BoolKey) : LF ∉ boolStr (key.value c) := by
    cases key.value c <;> decide
  have hlist (key : ListKey) : LF ∉ joinCsv (key.value c) := by
    intro hin
    obtain ⟨text, htext, hline⟩ := list_loaded hlive key
    rw [htext] at hin
    rcases mem_joinCsv hin with hcomma | ⟨value, hvalue, hmem⟩
    · cases hcomma
    · obtain ⟨piece, hpiece, rfl⟩ := List.mem_map.mp (List.mem_filter.mp hvalue).1
      exact hline ((infix_of_mem_splitOn hpiece).subset (mem_of_mem_trimBy hmem))
  have hall : List.Forall₂ (fun f g => f.1 = g.1 ∧ LF ∉ f.2.plain) c.fields c.fields :=
    forall₂_fields (R := fun value _ => LF ∉ value.plain) hint hbool
      (fun key => (text_loaded hlive key).2) (text_loaded hlive .adminToken).2 hlist
  intro f hf
  exact (List.forall₂_same.mp hall f hf).2

/-- Every configuration that was loaded from a file can be saved. -/
theorem saves_written {content : Bytes}
    (hlive : ({} : ServerConfig).loadFromParser (.parseFile content) = .ok c) :
    Saves (written c) c := by
  constructor
  · intro line hline
    obtain ⟨f, hf, rfl⟩ := List.mem_map.mp hline
    refine ⟨isKey_fields c f.1 (List.mem_map_of_mem hf), by decide, by decide, ?_⟩
    rw [List.mem_cons, not_or]
    exact ⟨by decide, plain_line hlive f hf⟩
  · intro key value hvalue
    have hassignments : (written c).filterMap ConfigLine.assignment =
        c.fields.map fun f => (f.1, 32 :: f.2.plain) := by
      rw [written, List.filterMap_map]
      exact congrFun (List.filterMap_eq_map
        (f := fun f : Bytes × ConfigValue => (f.1, 32 :: f.2.plain))) c.fields
    have hnodup : ((c.fields.map fun f => (f.1, 32 :: f.2.plain)).map Prod.fst).Nodup := by
      rw [List.map_map]
      exact nodup_fields c
    have hmem : (key, 32 :: value.plain) ∈ c.fields.map fun f => (f.1, 32 :: f.2.plain) := by
      refine List.mem_map.mpr ⟨(key, value), ?_, rfl⟩
      obtain ⟨before, behind, hfields, -⟩ := List.lookup_eq_some_iff.mp hvalue
      rw [hfields]
      exact List.mem_append_right _ List.mem_cons_self
    rw [assigned, hassignments, lookup_reverse hnodup hmem]
    rfl

end ServerConfig

/-- A store with a port of its own, and a timeout beyond what `std::stoll` reads. -/
def savedStore : ServerConfigStore :=
  .new { port := 81, websocketPingIntervalMs := 18446744073709551615 } []

/-- The file of `savedStore` under any name. -/
def savedFiles : Files where
  opens _ := true
  content _ := some (fileBytes savedStore.snapshot.written)
  readable _ := true

theorem reread_changes_saved :
    (savedStore.tryReload (ascii "/saved") savedFiles).2.success = true ∧
      (∀ key, key ∈ (savedStore.tryReload (ascii "/saved") savedFiles).2.changes ↔
        ∃ value, savedStore.snapshot.valueOf key = some value ∧ ¬value.Kept) ∧
      ((savedStore.tryReload (ascii "/saved") savedFiles).1.snapshot = savedStore.snapshot ↔
        ∀ key value, savedStore.snapshot.valueOf key = some value → value.Kept) := by
  have hlive : ({} : ServerConfig).loadFromParser
      (.parseFile (ascii "port = 81\nwebsocket_ping_interval_ms = -1")) =
        .ok savedStore.snapshot := by
    decide
  exact reread_changes hlive (ServerConfig.saves_written hlive) (by decide) rfl rfl
    fun hon => absurd hon (by decide)

end Aevrix.Config
