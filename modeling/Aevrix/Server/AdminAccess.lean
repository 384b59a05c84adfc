import Aevrix.Isolation.Purge
import Aevrix.Server.AdminReload

/-!
# Who may use the admin endpoints (`main.cpp`)

A request is authorized if the endpoints are on and it presents the token of the live
configuration. Requests to the endpoints that are not can be struck out of every run: the program
ends in the same state, everybody else gets the same answers, and what they are answered is one of
two fixed responses (`unauthorized_isolated`).
-/

namespace Aevrix.Server
open Aevrix.Http
open Aevrix.Config (ServerConfig Files)

/-! ### The token -/

/-- What a request presents (`main.cpp:446-454`). -/
def presentedToken (request : HttpRequest) : Bytes :=
  let authorization := request.getHeader (ascii "Authorization")
  if (ascii "Bearer ").isPrefixOf authorization then authorization.drop 7
  else
    let token := request.getHeader (ascii "X-Aevrix-Token")
    if token = [] then authorization else token

theorem foldl_or_eq_zero (start : Byte) (bytes : Bytes) :
    bytes.foldl (· ||| ·) start = 0 ↔ start = 0 ∧ ∀ b ∈ bytes, b = 0 := by
  induction bytes generalizing start with
  | nil => simp
  | cons b bytes ih =>
    rw [List.foldl_cons, ih, List.forall_mem_cons, ← and_assoc, UInt8.or_eq_zero_iff]

/-- No difference in any place: the loop without early exit compares the two. -/
theorem zipWith_xor_eq_zero {a b : Bytes} (hlength : a.length = b.length) :
    (List.zipWith (· ^^^ ·) a b).foldl (· ||| ·) 0 = 0 ↔ a = b := by
  rw [foldl_or_eq_zero]
  simp only [true_and]
  induction a generalizing b with
  | nil =>
    rw [List.length_nil] at hlength
    simp [List.eq_nil_of_length_eq_zero hlength.symm]
  | cons x a ih =>
    cases b with
    | nil => cases hlength
    | cons y b =>
      rw [List.zipWith_cons_cons, List.forall_mem_cons, UInt8.xor_eq_zero_iff, ih (Nat.succ.inj hlength),
        List.cons.injEq]

theorem adminTokenOk_iff (request : HttpRequest) (live : LiveConfig) :
    adminTokenOk request live = true ↔
      live.adminToken = [] ∨ presentedToken request = live.adminToken := by
  unfold adminTokenOk
  change (if _ then true else (presentedToken request).length == _ && _) = true ↔ _
  split
  · rename_i hnone
    simp [hnone]
  · rename_i hsome
    rw [Bool.and_eq_true, beq_iff_eq, or_iff_right hsome]
    constructor
    · rintro ⟨hlength, hzero⟩
      exact (zipWith_xor_eq_zero hlength).mp (beq_iff_eq.mp hzero)
    · intro hsame
      have hlength := congrArg List.length hsame
      exact ⟨hlength, beq_iff_eq.mpr ((zipWith_xor_eq_zero hlength).mpr hsame)⟩

/-! ### Authorized requests -/

def configKey : Bytes := makeRouteKey (ascii "GET") (ascii "/admin/config")
def reloadKey : Bytes := makeRouteKey (ascii "POST") (ascii "/admin/reload-config")

/-- The key the router looks a request up with. -/
def requestKey (request : HttpRequest) : Bytes :=
  makeRouteKey (httpMethodToString request.method) request.target

/-- A request to one of the two endpoints. -/
def AsksAdmin (request : HttpRequest) : Prop :=
  requestKey request = configKey ∨ requestKey request = reloadKey

instance (request : HttpRequest) : Decidable (AsksAdmin request) :=
  inferInstanceAs (Decidable (_ ∨ _))

/-- The endpoints are on, and the request presents the live token if there is one. -/
def Program.Authorized (p : Program) (request : HttpRequest) : Prop :=
  p.live.adminApiEnabled = true ∧
    (p.live.adminToken = [] ∨ presentedToken request = p.live.adminToken)

instance (p : Program) (request : HttpRequest) : Decidable (p.Authorized request) :=
  inferInstanceAs (Decidable (_ ∧ _))

/-- What an unauthorized request is answered. -/
def denial (enabled : Bool) : HttpResponse :=
  adminResponse <|
    if enabled then
      ((HttpResponse.ofBody .unauthorized (ascii "Unauthorized\n")).setHeader
        (ascii "Content-Type") (ascii "text/plain")).setHeader
          (ascii "WWW-Authenticate") (ascii "Bearer realm=\"aevrix-admin\"")
    else (HttpResponse.ofBody .notFound (ascii "Not Found\n")).setHeader
      (ascii "Content-Type") (ascii "text/plain")

theorem adminRefusal_unauthorized {p : Program} {request : HttpRequest} (files : Files)
    (h : ¬p.Authorized request) : ∃ refusal, adminRefusal (p.reloadAdmin files) request = some refusal ∧
      adminResponse refusal = denial p.live.adminApiEnabled := by
  have hlive : (p.reloadAdmin files).live = ⟨p.live.adminApiEnabled, p.live.adminToken, p.live.summary⟩ :=
    rfl
  unfold adminRefusal
  rw [hlive]
  cases henabled : p.live.adminApiEnabled with
  | false => exact ⟨_, rfl, rfl⟩
  | true =>
    have htoken : adminTokenOk request ⟨true, p.live.adminToken, p.live.summary⟩ = false := by
      rw [← Bool.not_eq_true, adminTokenOk_iff]
      exact fun hok => h ⟨henabled, hok⟩
    simp only [htoken, Bool.not_true, Bool.not_false, Bool.false_eq_true, if_false, if_true]
    exact ⟨_, rfl, rfl⟩

theorem adminRefusal_authorized {p : Program} {request : HttpRequest} (files : Files)
    (h : p.Authorized request) : adminRefusal (p.reloadAdmin files) request = none := by
  have hlive : (p.reloadAdmin files).live = ⟨p.live.adminApiEnabled, p.live.adminToken, p.live.summary⟩ :=
    rfl
  have htoken : adminTokenOk request (p.reloadAdmin files).live = true := by
    rw [adminTokenOk_iff]
    exact h.2
  unfold adminRefusal
  rw [htoken, hlive, h.1]
  rfl

/-! ### Runs -/

/-- A request that comes to the router, with the answers of the file system to a reload, or a step
of the program: a reload by signal, and the steps of the proxy. -/
inductive AdminEvent where
  | request (request : HttpRequest) (files : Files)
  | program (step : Program.Step)

namespace Program

/-- The program behind an event, and what a routed request is answered. -/
def serve (p : Program) : AdminEvent → Program × Option HttpResponse
  | .request request files =>
    let answer := ((routeTable (p.reloadAdmin files)).lookup (requestKey request)).map
      fun handler => handler request
    match if requestKey request = reloadKey then p.overridePath request files else none with
    | some path => (p.performReload path files, answer)
    | none => (p, answer)
  | .program step => (p.step step, none)

/-- A request to the endpoints has to be authorized when it comes. -/
def Allowed (p : Program) : AdminEvent → Prop
  | .request request _ => AsksAdmin request → p.Authorized request
  | .program _ => True

instance (p : Program) (event : AdminEvent) : Decidable (p.Allowed event) := match event with
  | .request request _ => inferInstanceAs (Decidable (AsksAdmin request → p.Authorized request))
  | .program _ => inferInstanceAs (Decidable True)

theorem lookup_admin (admin : Admin) {request : HttpRequest} (h : AsksAdmin request) :
    (routeTable admin).lookup (requestKey request) = some (adminConfigRoute admin) ∨
      (routeTable admin).lookup (requestKey request) = some (adminReloadRoute admin) := by
  rcases h with h | h
  · rw [h]
    exact Or.inl rfl
  · rw [h]
    exact Or.inr rfl

/-- An unauthorized request to the endpoints: no effect, and a fixed answer. -/
theorem serve_unauthorized {p : Program} {request : HttpRequest} (files : Files)
    (hasks : AsksAdmin request) (h : ¬p.Authorized request) :
    p.serve (.request request files) = (p, some (denial p.live.adminApiEnabled)) := by
  obtain ⟨refusal, hrefusal, hdenial⟩ := adminRefusal_unauthorized files h
  have hoverride : p.overridePath request files = none := by
    rw [overridePath, hrefusal]
    rfl
  have hanswer : ((routeTable (p.reloadAdmin files)).lookup (requestKey request)).map
      (fun handler => handler request) = some (denial p.live.adminApiEnabled) := by
    rcases lookup_admin (p.reloadAdmin files) hasks with hlookup | hlookup
    · rw [hlookup, Option.map_some, adminConfigRoute, hrefusal]
      exact congrArg some hdenial
    · rw [hlookup, Option.map_some, adminReloadRoute, hrefusal]
      exact congrArg some hdenial
  simp only [serve, hoverride, ite_self, hanswer]

/-- Requests to the admin endpoints that do not present the live token can be struck out of any
run of requests, reloads by signal and proxy steps: the program ends in the same state, every
other event is answered as before, and each of them gets the same refusal, which depends on
nothing but whether the endpoints are on. While they are on, a request that presents the token, or
any when there is no token, is not refused. -/
theorem unauthorized_isolated (p : Program) (events : List AdminEvent) :
    let kept := Isolation.purge serve Allowed p events
    Isolation.behind serve p kept = Isolation.behind serve p events ∧
    Isolation.answers serve p kept = Isolation.answered serve Allowed p events ∧
    (∀ before request files after, events = before ++ .request request files :: after →
      AsksAdmin request → ¬(Isolation.behind serve p before).Authorized request →
      ((Isolation.behind serve p before).serve (.request request files)).2 =
        some (denial (Isolation.behind serve p before).live.adminApiEnabled) ∧
      ((Isolation.behind serve p before).serve (.request request files)).1 =
        Isolation.behind serve p before) ∧
    ∀ q request files, Authorized q request → adminRefusal (q.reloadAdmin files) request = none := by
  have hkept : ∀ (p : Program) (event : AdminEvent), ¬p.Allowed event → (p.serve event).1 = p := by
    intro p event hdenied
    cases event with
    | program step => exact absurd trivial hdenied
    | request request files =>
      obtain ⟨hasks, hunauthorized⟩ := Classical.not_imp.mp hdenied
      rw [serve_unauthorized files hasks hunauthorized]
  refine ⟨Isolation.behind_purge hkept p events, Isolation.answers_purge hkept p events, ?_,
    fun q request files => adminRefusal_authorized files⟩
  intro before request files after _ hasks hunauthorized
  rw [serve_unauthorized files hasks hunauthorized]
  exact ⟨rfl, rfl⟩

end Program
end Aevrix.Server
