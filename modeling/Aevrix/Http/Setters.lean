import Aevrix.Http.Response

/-!
# Responses built through their setters (`http_response.h`)

A response is one of the constructors and then any run of setters, the operations on `headers()`
among them. A setter does at most one thing to the headers (`headers_apply`), and what a run keeps
is read off that.
-/

namespace Aevrix.Http

/-! ### Headers -/

theorem HttpHeaders.mem_remove {hs : HttpHeaders} (hd : hs.Distinct) (name : Bytes) (h : HttpHeader) :
    h ∈ hs.remove name ↔ h ∈ hs ∧ h.normalizedName ≠ HttpHeader.normalizeName name := by
  induction hs with
  | nil => simp [HttpHeaders.remove]
  | cons g gs ih =>
    obtain ⟨hg, hgs⟩ := List.nodup_cons.mp hd
    by_cases hname : g.normalizedName = HttpHeader.normalizeName name
    · have hother : h ∈ gs → h.normalizedName ≠ HttpHeader.normalizeName name := fun hm heq =>
        hg (List.mem_map.mpr ⟨h, hm, heq.trans hname.symm⟩)
      simp only [HttpHeaders.remove, List.eraseP_cons, hname, beq_self_eq_true, cond_true,
        List.mem_cons]
      constructor
      · intro h1
        exact ⟨Or.inr h1, hother h1⟩
      · rintro ⟨rfl | h1, h2⟩
        · exact (h2 hname).elim
        · exact h1
    · have ih' := ih hgs
      simp only [HttpHeaders.remove] at ih'
      simp only [HttpHeaders.remove, List.eraseP_cons, beq_false_of_ne hname, cond_false,
        List.mem_cons, ih']
      constructor
      · rintro (rfl | ⟨h1, h2⟩)
        · exact ⟨Or.inl rfl, hname⟩
        · exact ⟨Or.inr h1, h2⟩
      · rintro ⟨rfl | h1, h2⟩
        · exact Or.inl rfl
        · exact Or.inr ⟨h1, h2⟩

theorem HttpHeaders.Distinct.remove {hs : HttpHeaders} (hd : hs.Distinct) (name : Bytes) :
    (hs.remove name).Distinct :=
  List.Nodup.sublist (List.Sublist.map _ (List.eraseP_sublist ..)) hd

/-- The operations of `HttpHeaders`. -/
inductive HeaderOp where
  | set (name value : Bytes)
  | remove (name : Bytes)
  | clear

namespace HttpHeaders

def apply (hs : HttpHeaders) : HeaderOp → HttpHeaders
  | .set name value => hs.set name value
  | .remove name => hs.remove name
  | .clear => []

def built (ops : List HeaderOp) : HttpHeaders := ops.foldl apply []

theorem Distinct.apply {hs : HttpHeaders} (hd : hs.Distinct) (op : HeaderOp) :
    (hs.apply op).Distinct := by
  cases op with
  | set name value => exact hd.set name value
  | remove name => exact hd.remove name
  | clear => exact distinct_nil

theorem built_distinct (ops : List HeaderOp) : (built ops).Distinct := by
  unfold built
  induction ops using List.reverseRecOn with
  | nil => exact distinct_nil
  | append_singleton ops op ih =>
    rw [List.foldl_append]
    exact ih.apply op

end HttpHeaders

/-! ### Setters -/

namespace HttpResponse

/-- `HttpResponse(status)`. -/
def ofStatus (status : StatusCode) : HttpResponse := { status }

/-- `HttpResponse(status, headers, body)`. -/
def ofHeaders (status : StatusCode) (headers : HttpHeaders) (body : Bytes) : HttpResponse :=
  { status, headers : HttpResponse }.setBody body

def setStatus (r : HttpResponse) (status : StatusCode) : HttpResponse := { r with status }

/-- `set_etag` (`http_response.h:462-470`). -/
def setEtag (r : HttpResponse) (etag : Bytes) : HttpResponse :=
  if etag = [] then r.removeHeader (ascii "ETag")
  else r.setHeader (ascii "ETag") (34 :: etag ++ [34])

def setLastModified (r : HttpResponse) (lastModified : Bytes) : HttpResponse :=
  if lastModified = [] then r.removeHeader (ascii "Last-Modified")
  else r.setHeader (ascii "Last-Modified") lastModified

/-- `reset` (`http_response.h:444-451`). -/
def reset : HttpResponse := {}

inductive Constructor where
  | plain
  | ofStatus (status : StatusCode)
  | ofBody (status : StatusCode) (body : Bytes)
  | ofHeaders (status : StatusCode) (headers : List HeaderOp) (body : Bytes)

/-- The setters but `set_version`, and the operations on `headers()`. -/
inductive Setter where
  | status (status : StatusCode)
  | header (name value : Bytes)
  | body (body : Bytes)
  | connectionPolicy (policy : ConnectionPolicy)
  | etag (etag : Bytes)
  | lastModified (lastModified : Bytes)
  | headOnly (headOnly : Bool)
  | headers (op : HeaderOp)
  | reset

def construct : Constructor → HttpResponse
  | .plain => {}
  | .ofStatus status => ofStatus status
  | .ofBody status body => ofBody status body
  | .ofHeaders status headers body => ofHeaders status (HttpHeaders.built headers) body

def apply (r : HttpResponse) : Setter → HttpResponse
  | .status status => r.setStatus status
  | .header name value => r.setHeader name value
  | .body body => r.setBody body
  | .connectionPolicy policy => r.setConnectionPolicy policy
  | .etag etag => r.setEtag etag
  | .lastModified lastModified => r.setLastModified lastModified
  | .headOnly headOnly => r.setHeadOnly headOnly
  | .headers op => { r with headers := r.headers.apply op }
  | .reset => HttpResponse.reset

def built (c : Constructor) (setters : List Setter) : HttpResponse :=
  setters.foldl apply (construct c)

/-- What holds of the constructors and is kept by the setters holds of what they build. -/
theorem built_induction {P : HttpResponse → Prop} (hinit : ∀ c, P (construct c))
    (hstep : ∀ r s, P r → P (r.apply s)) (c : Constructor) (setters : List Setter) :
    P (built c setters) := by
  induction setters using List.reverseRecOn with
  | nil => exact hinit c
  | append_singleton setters s ih =>
    rw [built, List.foldl_append]
    exact hstep _ s ih

/-! ### What a setter does to the headers -/

/-- The length that `set_body` writes, or its removal. -/
def lengthOp (body : Bytes) : HeaderOp :=
  if body = [] then .remove (ascii "Content-Length")
  else .set (ascii "Content-Length") (decimalText body.length)

theorem setBody_headers (r : HttpResponse) (body : Bytes) :
    (r.setBody body).headers = r.headers.apply (lengthOp body) := by
  cases body with
  | nil => rfl
  | cons b t => rfl

theorem setBody_version (r : HttpResponse) (body : Bytes) :
    (r.setBody body).version = r.version := by
  cases body with
  | nil => rfl
  | cons b t => rfl

theorem setBody_body (r : HttpResponse) (body : Bytes) : (r.setBody body).body = body := by
  cases body with
  | nil => rfl
  | cons b t => rfl

/-- The one operation of a setter on the headers. -/
def Setter.headerOp : Setter → Option HeaderOp
  | .status _ => none
  | .header name value => some (.set name value)
  | .body text => some (lengthOp text)
  | .connectionPolicy policy => some (.set (ascii "Connection") (match policy with
    | .keepAlive => ascii "keep-alive"
    | .close => ascii "close"))
  | .etag text => some (if text = [] then .remove (ascii "ETag")
    else .set (ascii "ETag") (34 :: text ++ [34]))
  | .lastModified text => some (if text = [] then .remove (ascii "Last-Modified")
    else .set (ascii "Last-Modified") text)
  | .headOnly _ => none
  | .headers op => some op
  | .reset => some .clear

theorem headers_apply (r : HttpResponse) (s : Setter) :
    (r.apply s).headers = s.headerOp.elim r.headers r.headers.apply := by
  cases s with
  | body body => exact setBody_headers r body
  | etag etag =>
    simp only [apply, setEtag, Setter.headerOp, Option.elim_some]
    split
    · rfl
    · rfl
  | lastModified lastModified =>
    simp only [apply, setLastModified, Setter.headerOp, Option.elim_some]
    split
    · rfl
    · rfl
  | _ => rfl

theorem body_apply (r : HttpResponse) (s : Setter) : (r.apply s).body = match s with
    | .body body => body
    | .reset => []
    | _ => r.body := by
  cases s with
  | body body => exact setBody_body r body
  | etag etag =>
    simp only [apply, setEtag]
    split
    · rfl
    · rfl
  | lastModified lastModified =>
    simp only [apply, setLastModified]
    split
    · rfl
    · rfl
  | _ => rfl

theorem version_apply {r : HttpResponse} (h : r.version = ascii "HTTP/1.1") (s : Setter) :
    (r.apply s).version = ascii "HTTP/1.1" := by
  cases s with
  | body body => exact (setBody_version r body).trans h
  | etag etag =>
    simp only [apply, setEtag]
    split
    · exact h
    · exact h
  | lastModified lastModified =>
    simp only [apply, setLastModified]
    split
    · exact h
    · exact h
  | reset => rfl
  | _ => exact h

/-! ### What is built -/

theorem built_version (c : Constructor) (setters : List Setter) :
    (built c setters).version = ascii "HTTP/1.1" := by
  refine built_induction (P := fun r => r.version = ascii "HTTP/1.1") (fun c => ?_)
    (fun r s h => version_apply h s) c setters
  cases c with
  | plain => rfl
  | ofStatus status => rfl
  | ofBody status body => exact setBody_version _ body
  | ofHeaders status headers body => exact setBody_version _ body

theorem apply_distinct {r : HttpResponse} (h : r.headers.Distinct) (s : Setter) :
    (r.apply s).headers.Distinct := by
  rw [headers_apply]
  cases s.headerOp with
  | none => exact h
  | some op => exact h.apply op

theorem built_distinct (c : Constructor) (setters : List Setter) :
    (built c setters).headers.Distinct := by
  refine built_induction (P := fun r => r.headers.Distinct) (fun c => ?_)
    (fun r s h => apply_distinct h s) c setters
  cases c with
  | plain => exact HttpHeaders.distinct_nil
  | ofStatus status => exact HttpHeaders.distinct_nil
  | ofBody status body =>
    change (setBody _ body).headers.Distinct
    rw [setBody_headers]
    exact HttpHeaders.distinct_nil.apply _
  | ofHeaders status headers body =>
    change (setBody _ body).headers.Distinct
    rw [setBody_headers]
    exact (HttpHeaders.built_distinct headers).apply _

end HttpResponse
end Aevrix.Http
