import Aevrix.Filesystem.Path
import Aevrix.Incremental.Splits
import Aevrix.Server.Program

/-!
# Reloads over the admin endpoint (`main.cpp`, `server_config_store.cpp`)

A request may name the file of a reload, and a reload that succeeds makes it the source path that
the next request is held against. The directory of the source path never grows, so every file that
is asked for lies in the directory of the startup path, or is that path (`reloads_confined`).
-/

namespace Aevrix.Config.ServerConfigStore
variable {s : ServerConfigStore} {path : Bytes} {files : Files}

/-- The file that `try_reload` opens and parses. -/
def resolved (s : ServerConfigStore) (path : Bytes) : Bytes :=
  if path = [] then s.sourcePath else path

theorem sourcePath_tryReload (s : ServerConfigStore) (path : Bytes) (files : Files) :
    (s.tryReload path files).1.sourcePath = s.sourcePath ∨
      (s.tryReload path files).1.sourcePath = s.resolved path := by
  simp only [tryReload]
  change _ ∨ _ = if path = [] then s.sourcePath else path
  generalize (if path = [] then s.sourcePath else path) = file
  split
  · exact Or.inl rfl
  rename_i hfile
  split
  · exact Or.inl rfl
  split
  · exact Or.inl rfl
  · unfold tryReloadFromParser
    split
    · exact Or.inl rfl
    · right
      show (if file = [] then s.sourcePath else file) = file
      exact if_neg hfile

end Aevrix.Config.ServerConfigStore

namespace Aevrix.Server
open Aevrix.Http Aevrix.Proxy Aevrix.Filesystem Incremental
open Aevrix.Config (ServerConfig ServerConfigStore Files)

/-! ### Directories -/

/-- `source.substr(0, slash + 1)`: the directory of a path, with its slash. -/
def directory (path : Bytes) : Bytes := path.rdropWhile (· != 47)

theorem directory_append_slash (front rest : Bytes) :
    front ++ [47] <+: directory (front ++ 47 :: rest) := by
  induction rest using List.reverseRecOn with
  | nil =>
    have hslash : directory (front ++ [47]) = front ++ [47] :=
      List.rdropWhile_concat_neg _ _ _ (by decide)
    rw [hslash]
  | append_singleton rest c ih =>
    have hback : front ++ 47 :: (rest ++ [c]) = (front ++ 47 :: rest) ++ [c] := by
      rw [List.append_assoc, List.cons_append]
    rw [hback, directory, List.rdropWhile_concat]
    split
    · exact ih
    · rw [List.append_assoc, List.cons_append]
      apply (List.prefix_append_right_inj front).mpr
      exact List.cons_prefix_cons.mpr ⟨rfl, List.nil_prefix⟩

theorem directory_absolute {path : Bytes} (h : path.head? = some 47) :
    ∃ front, directory path = front ++ [47] := by
  have hne : directory path ≠ [] := by
    obtain ⟨rest, rfl⟩ := List.head?_eq_some_iff.mp h
    intro hnil
    have hfront := directory_append_slash [] rest
    rw [List.nil_append, List.nil_append, hnil] at hfront
    cases List.prefix_nil.mp hfront
  have hlast : (directory path).getLast hne = 47 := by
    have hstop : ¬((directory path).getLast hne != 47) = true :=
      List.rdropWhile_last_not (· != 47) path hne
    simpa using hstop
  refine ⟨(directory path).dropLast, ?_⟩
  nth_rewrite 1 [← List.dropLast_append_getLast hne]
  rw [hlast]

/-- A path that starts with the directory of another starts with all that one starts with. -/
theorem directory_mono {front path : Bytes} (h : front ++ [47] <+: path) :
    front ++ [47] <+: directory path := by
  obtain ⟨rest, rfl⟩ := h
  rw [List.append_assoc, List.singleton_append]
  exact directory_append_slash front rest

/-! ### Confinement -/

/-- An absolute path in the directory of the startup path: behind the text of that directory,
behind its names, and with no name that goes up. -/
structure Confined (startup path : Bytes) : Prop where
  rooted : startup.head? = some 47
  absolute : path.head? = some 47
  below : ∃ rest, rest ≠ [] ∧ path = directory startup ++ rest
  inside : Path.stem (Path.parse (directory startup)).names <+: (Path.parse path).names
  climbs : dotdot ∉ (Path.parse path).names

/-- A path is the startup path, or confined to its directory. -/
def Stays (startup path : Bytes) : Prop := path = startup ∨ Confined startup path

theorem stem_parse_slash (front : Bytes) : Path.stem (Path.parse (front ++ [47])).names =
    (front.splitOn 47).filter fun name => !name.isEmpty := by
  have hpieces : (front ++ [47]).splitOn 47 = front.splitOn 47 ++ [[]] := by
    rw [List.splitOn_append_cons_self, List.splitOn_nil]
  have hnames : ((front ++ [47]).splitOn 47).filter (fun name => !name.isEmpty) =
      (front.splitOn 47).filter fun name => !name.isEmpty := by
    rw [hpieces, List.filter_append]
    exact List.append_nil _
  have hfilled : ((front.splitOn 47).filter fun name => !name.isEmpty).getLast? ≠ some [] := by
    intro hlast
    have hmem := (List.mem_filter.mp (List.mem_of_getLast? hlast)).2
    cases hmem
  simp only [Path.parse, hnames, List.getLast?_concat, and_true]
  split
  · rw [Path.stem, if_pos List.getLast?_concat, List.dropLast_concat]
  · rw [Path.stem, if_neg hfilled]

theorem parse_below (front rest : Bytes) :
    ((front.splitOn 47).filter fun name => !name.isEmpty) <+:
      (Path.parse (front ++ 47 :: rest)).names := by
  have hnames : ((front ++ 47 :: rest).splitOn 47).filter (fun name => !name.isEmpty) =
      ((front.splitOn 47).filter fun name => !name.isEmpty) ++
        (rest.splitOn 47).filter fun name => !name.isEmpty := by
    rw [List.splitOn_append_cons_self, List.filter_append]
  simp only [Path.parse, hnames]
  split
  · rw [List.append_assoc]
    exact List.prefix_append _ _
  · exact List.prefix_append _ _

theorem infix_of_mem_parse {path : Bytes} {name : Name} (h : name ∈ (Path.parse path).names) :
    name <:+: path := by
  have hpiece : ∀ name, (name ∈ (path.splitOn 47).filter fun name => !name.isEmpty) →
      name <:+: path := fun name hname => infix_of_mem_splitOn (List.mem_filter.mp hname).1
  simp only [Path.parse] at h
  split at h
  · rcases List.mem_append.mp h with hname | hnil
    · exact hpiece name hname
    · rw [List.mem_singleton.mp hnil]
      exact List.nil_infix
  · exact hpiece name h

theorem of_reloadPathAllowed {candidate source : Bytes}
    (h : reloadPathAllowed candidate source = true) (hne : candidate ≠ []) :
    candidate.head? = some 47 ∧ ¬ascii ".." <:+: candidate ∧ source.head? = some 47 ∧
      directory source <+: candidate ∧ (directory source).length < candidate.length := by
  unfold reloadPathAllowed at h
  rw [if_neg hne] at h
  split at h
  · cases h
  · rename_i hplain
    split at h
    · cases h
    · rename_i hsource
      obtain ⟨habsolute, hclimbs⟩ := not_or.mp hplain
      rw [Bool.and_eq_true, decide_eq_true_eq] at h
      exact ⟨not_not.mp habsolute, hclimbs, not_not.mp hsource, List.isPrefixOf_iff_prefix.mp h.1,
        h.2⟩

/-- The directory of a source path that stays is in the directory of the startup path. -/
theorem Stays.directory {startup source : Bytes} (h : Stays startup source)
    (hsource : source.head? = some 47) :
    startup.head? = some 47 ∧ directory startup <+: directory source := by
  rcases h with rfl | hconfined
  · exact ⟨hsource, List.prefix_rfl⟩
  · obtain ⟨rest, -, hpath⟩ := hconfined.below
    obtain ⟨front, hfront⟩ := directory_absolute hconfined.rooted
    refine ⟨hconfined.rooted, ?_⟩
    rw [hfront]
    apply directory_mono
    rw [hpath, hfront]
    exact List.prefix_append _ _

theorem Stays.allowed {startup source candidate : Bytes} (h : Stays startup source)
    (hallowed : reloadPathAllowed candidate source = true) (hne : candidate ≠ []) :
    Confined startup candidate := by
  obtain ⟨habsolute, hclimbs, hsource, hbelow, hlonger⟩ := of_reloadPathAllowed hallowed hne
  obtain ⟨hstartup, hdirectory⟩ := h.directory hsource
  obtain ⟨rest, hcandidate⟩ := hdirectory.trans hbelow
  obtain ⟨front, hfront⟩ := directory_absolute hstartup
  refine ⟨hstartup, habsolute, ⟨rest, ?_, hcandidate.symm⟩, ?_, ?_⟩
  · rintro rfl
    rw [List.append_nil] at hcandidate
    have hshort := hdirectory.length_le
    rw [hcandidate] at hshort
    omega
  · rw [hfront, stem_parse_slash, ← hcandidate, hfront, List.append_assoc, List.singleton_append]
    exact parse_below front rest
  · exact fun hmem => hclimbs (infix_of_mem_parse hmem)

/-! ### Reloads -/

namespace Program

/-- What the routes read of the store. -/
def storeStatus (p : Program) : StoreStatus where
  generation := p.store.generation
  sourcePath := p.store.sourcePath
  reloadSuccessCount := p.store.reloadSuccessCount
  reloadFailureCount := p.store.reloadFailureCount
  lastError := p.store.lastError

/-- The outcome of `perform_reload`, and the store behind it. -/
def reported (p : Program) (files : Files) (path : Bytes) : ConfigReloadOutcome × StoreStatus :=
  let outcome := (p.store.tryReload path files).2
  ({ success := outcome.success
     message := outcome.message
     generation := outcome.generation
     changes := outcome.changes
     appliedHot := outcome.appliedHot
     restartRequired := outcome.restartRequired }, (p.performReload path files).storeStatus)

/-- What the route is given (`main.cpp:1542-1543`). -/
def reloadAdmin (p : Program) (files : Files) : Admin where
  live := ⟨p.live.adminApiEnabled, p.live.adminToken, p.live.summary⟩
  store := p.storeStatus
  performReload := some (p.reported files)

/-- The argument of `perform_reload`, if a request comes so far (`main.cpp:1547-1567`). -/
def overridePath (p : Program) (request : HttpRequest) (files : Files) : Option Bytes :=
  if (adminRefusal (p.reloadAdmin files) request).isSome then none
  else
    let overridePath := requestedConfigPath request
    if reloadPathAllowed overridePath p.store.sourcePath then some overridePath else none

theorem of_overridePath {p : Program} {request : HttpRequest} {files : Files} {path : Bytes}
    (h : p.overridePath request files = some path) :
    reloadPathAllowed path p.store.sourcePath = true := by
  unfold overridePath at h
  split at h
  · cases h
  · dsimp only at h
    split at h
    · rename_i hallowed
      rwa [← Option.some.inj h]
    · cases h

theorem adminReloadRoute_overridePath (p : Program) (request : HttpRequest) (files : Files)
    (f : Bytes → ConfigReloadOutcome × StoreStatus)
    (hf : ∀ path ∈ p.overridePath request files, f path = p.reported files path) :
    adminReloadRoute { p.reloadAdmin files with performReload := some f } request =
      adminReloadRoute (p.reloadAdmin files) request := by
  have hrefusal : adminRefusal { p.reloadAdmin files with performReload := some f } request =
      adminRefusal (p.reloadAdmin files) request := rfl
  unfold adminReloadRoute
  rw [hrefusal]
  unfold overridePath at hf
  cases hrefused : adminRefusal (p.reloadAdmin files) request with
  | some refusal => rfl
  | none =>
    rw [hrefused, if_neg (by decide)] at hf
    by_cases hallowed : reloadPathAllowed (requestedConfigPath request) p.store.sourcePath = true
    · simp only [reloadAdmin, storeStatus, hallowed]
      rw [hf _ (by simp only [hallowed, if_true, Option.mem_some])]
    · simp only [reloadAdmin, storeStatus, hallowed, Bool.not_false, if_true]

end Program

/-- What reloads the configuration: a request to the route, or SIGHUP. -/
inductive Reload where
  | request (request : HttpRequest) (files : Files)
  | hangup (files : Files)

namespace Program

/-- The argument of `perform_reload` and the answers of the file system. -/
def reloadCall (p : Program) : Reload → Option (Bytes × Files)
  | .request request files => (p.overridePath request files).map fun path => (path, files)
  | .hangup files => some ([], files)

/-- The program behind a series of reloads, and the files that the store was asked to load. -/
def runReloads (p : Program) : List Reload → Program × List Bytes
  | [] => (p, [])
  | r :: reloads => match p.reloadCall r with
    | none => p.runReloads reloads
    | some (path, files) =>
      let (q, asked) := (p.performReload path files).runReloads reloads
      (q, p.store.resolved path :: asked)

theorem store_performReload (p : Program) (path : Bytes) (files : Files) :
    (p.performReload path files).store = (p.store.tryReload path files).1 := by
  unfold performReload
  dsimp only
  split <;> rfl

variable {startup : Bytes} {p : Program}

theorem stays_resolved (h : Stays startup p.store.sourcePath) {r : Reload} {path : Bytes}
    {files : Files} (hcall : p.reloadCall r = some (path, files)) :
    Stays startup (p.store.resolved path) := by
  unfold ServerConfigStore.resolved
  split
  · exact h
  · rename_i hne
    cases r with
    | hangup files =>
      simp only [reloadCall, Option.some.injEq, Prod.mk.injEq] at hcall
      exact absurd hcall.1.symm hne
    | request request files =>
      obtain ⟨override, hoverride, heq⟩ := Option.map_eq_some_iff.mp hcall
      obtain ⟨rfl, rfl⟩ := Prod.mk.inj heq
      exact Or.inr (h.allowed (of_overridePath hoverride) hne)

theorem stays_performReload (h : Stays startup p.store.sourcePath) {path : Bytes} (files : Files)
    (hresolved : Stays startup (p.store.resolved path)) :
    Stays startup (p.performReload path files).store.sourcePath := by
  rw [store_performReload]
  rcases p.store.sourcePath_tryReload path files with hsource | hsource
  · rwa [hsource]
  · rwa [hsource]

theorem stays_runReloads (h : Stays startup p.store.sourcePath) (reloads : List Reload) :
    Stays startup (p.runReloads reloads).1.store.sourcePath ∧
      ∀ path ∈ (p.runReloads reloads).2, Stays startup path := by
  induction reloads generalizing p with
  | nil => exact ⟨h, fun path hpath => absurd hpath List.not_mem_nil⟩
  | cons r reloads ih =>
    rw [runReloads]
    split
    · exact ih h
    · rename_i path files hcall
      have hresolved := stays_resolved h hcall
      obtain ⟨hsource, hasked⟩ := ih (stays_performReload h files hresolved)
      refine ⟨hsource, fun file hfile => ?_⟩
      rcases List.mem_cons.mp hfile with rfl | hlater
      · exact hresolved
      · exact hasked file hlater

/-- Whatever requests come to the route, and whatever the files hold, each file that the store is
asked to load, and the source path that it keeps, is the startup path or confined to its
directory. -/
theorem reloads_confined (config : ServerConfig) (configFile : Bytes)
    (resolve : ProxyTarget → Option Bytes) (reloads : List Reload) :
    Stays configFile ((start config configFile resolve).runReloads reloads).1.store.sourcePath ∧
      ∀ path ∈ ((start config configFile resolve).runReloads reloads).2, Stays configFile path :=
  stays_runReloads (Or.inl rfl) reloads

end Program
end Aevrix.Server
