import Aevrix.Http.RequestFraming
import Aevrix.Http.ResponseWire

/-!
# The length a response announces (`http_response.h`)

`set_body` keeps `Content-Length` with the body, and `is_valid` reads a length set by hand with
`stoul`, which takes more for a number than its digits. The field is true just where the text last
set by hand, if no later setter wrote over it, is the plain decimal form of a number.
-/

namespace Aevrix.Http
open HttpResponseSerializer (serialize)
open HttpResponse (Setter Constructor lengthOp)

def lengthKey : Bytes := HttpHeader.normalizeName (ascii "Content-Length")

/-- A `Content-Length` of the response is the number of bytes written behind the blank line. -/
def Truthful (r : HttpResponse) : Prop :=
  ∀ h ∈ r.headers, h.normalizedName = lengthKey → ∀ head body,
    wireParts (serialize r) = some (head, body) → h.value = decimalText body.length

/-! ### The text set by hand -/

/-- The text that stands as `Content-Length` by hand, after one more operation on the headers. -/
def HeaderOp.handText (last : Option Bytes) : HeaderOp → Option Bytes
  | .set name value => if HttpHeader.normalizeName name = lengthKey then some value else last
  | .remove name => if HttpHeader.normalizeName name = lengthKey then none else last
  | .clear => none

/-- The same after one more setter: `set_body` and `reset` write the field themselves. -/
def HttpResponse.Setter.handText (last : Option Bytes) : Setter → Option Bytes
  | .body _ => none
  | .reset => none
  | s => s.headerOp.elim last (HeaderOp.handText last)

/-- The text last set by hand as `Content-Length`, unless another setter wrote over it. -/
def handText (setters : List Setter) : Option Bytes := setters.foldl Setter.handText none

/-! ### What one setter does to it -/

/-- A length that is not set by hand is that of the body. -/
structure LengthTrack (r : HttpResponse) (last : Option Bytes) : Prop where
  distinct : r.headers.Distinct
  measured : last = none → ∀ h ∈ r.headers, h.normalizedName = lengthKey →
    h.value = decimalText r.body.length
  byHand : ∀ v, last = some v →
    ∃ h ∈ r.headers, h.normalizedName = lengthKey ∧ h.value = trimWhitespace v

section track
variable {r r' : HttpResponse} {last : Option Bytes}

theorem LengthTrack.congr (h : LengthTrack r last) (hdistinct : r'.headers.Distinct)
    (hheaders : ∀ g : HttpHeader, g.normalizedName = lengthKey →
      (g ∈ r'.headers ↔ g ∈ r.headers)) (hbody : r'.body = r.body) : LengthTrack r' last := by
  refine ⟨hdistinct, fun hlast g hg hkey => ?_, fun v hlast => ?_⟩
  · rw [hbody]
    exact h.measured hlast g ((hheaders g hkey).mp hg) hkey
  · obtain ⟨g, hg, hkey, hvalue⟩ := h.byHand v hlast
    exact ⟨g, (hheaders g hkey).mpr hg, hkey, hvalue⟩

theorem LengthTrack.absent (hdistinct : r.headers.Distinct)
    (h : ∀ g ∈ r.headers, g.normalizedName ≠ lengthKey) : LengthTrack r none :=
  ⟨hdistinct, fun _ g hg hkey => (h g hg hkey).elim, fun _ hlast => by cases hlast⟩

theorem LengthTrack.headerOp (h : LengthTrack r last) (op : HeaderOp)
    (hheaders : r'.headers = r.headers.apply op) (hbody : r'.body = r.body) :
    LengthTrack r' (op.handText last) := by
  have hdistinct : r'.headers.Distinct := by
    rw [hheaders]
    exact h.distinct.apply op
  cases op with
  | set name value =>
    have hmem := HttpHeaders.mem_set h.distinct name value
    rw [HeaderOp.handText]
    split
    · rename_i hname
      refine ⟨hdistinct, fun hlast => (by cases hlast), fun v hlast => ?_⟩
      rw [← Option.some.inj hlast]
      refine ⟨.ofField name value, ?_, hname, rfl⟩
      rw [hheaders]
      exact (hmem _).mpr (Or.inl rfl)
    · rename_i hname
      refine h.congr hdistinct (fun g hkey => ?_) hbody
      rw [hheaders, HttpHeaders.apply, hmem]
      constructor
      · rintro (rfl | ⟨hg, -⟩)
        · exact (hname hkey).elim
        · exact hg
      · intro hg
        exact Or.inr ⟨hg, fun heq => hname (heq.symm.trans hkey)⟩
  | remove name =>
    have hmem := HttpHeaders.mem_remove h.distinct name
    rw [HeaderOp.handText]
    split
    · rename_i hname
      refine .absent hdistinct fun g hg => ?_
      rw [hheaders] at hg
      exact hname ▸ ((hmem g).mp hg).2
    · rename_i hname
      refine h.congr hdistinct (fun g hkey => ?_) hbody
      rw [hheaders, HttpHeaders.apply, hmem]
      exact ⟨And.left, fun hg => ⟨hg, fun heq => hname (heq.symm.trans hkey)⟩⟩
  | clear =>
    refine .absent hdistinct fun g hg => ?_
    rw [hheaders] at hg
    cases hg

theorem LengthTrack.setBody (hd : r.headers.Distinct) (body : Bytes) :
    LengthTrack (r.setBody body) none := by
  have hheaders := HttpResponse.setBody_headers r body
  have hdistinct : (r.setBody body).headers.Distinct := by
    rw [hheaders]
    exact hd.apply _
  refine ⟨hdistinct, fun _ g hg hkey => ?_, fun _ hlast => by cases hlast⟩
  rw [hheaders, lengthOp] at hg
  rw [HttpResponse.setBody_body]
  split at hg
  · exact (((HttpHeaders.mem_remove hd _ g).mp hg).2 hkey).elim
  · rcases (HttpHeaders.mem_set hd _ _ g).mp hg with rfl | ⟨-, hother⟩
    · exact trimWhitespace_digits (isDecimal_decimalText _).2.1
    · exact (hother hkey).elim

theorem LengthTrack.setter (h : LengthTrack r last) {s : Setter} {op : HeaderOp}
    (hop : s.headerOp = some op) (hbody : (r.apply s).body = r.body) :
    LengthTrack (r.apply s) (op.handText last) := by
  refine h.headerOp op ?_ hbody
  rw [HttpResponse.headers_apply, hop, Option.elim_some]

theorem LengthTrack.apply (h : LengthTrack r last) (s : Setter) :
    LengthTrack (r.apply s) (s.handText last) := by
  have hbody := HttpResponse.body_apply r s
  cases s with
  | body text => exact .setBody h.distinct text
  | reset =>
    refine .absent HttpHeaders.distinct_nil fun g hg => ?_
    cases hg
  | status code => exact h.congr h.distinct (fun _ _ => Iff.rfl) rfl
  | headOnly flag => exact h.congr h.distinct (fun _ _ => Iff.rfl) rfl
  | header name value => exact h.setter rfl hbody
  | connectionPolicy policy => exact h.setter rfl hbody
  | etag text => exact h.setter rfl hbody
  | lastModified text => exact h.setter rfl hbody
  | headers op => exact h.setter rfl hbody

theorem LengthTrack.construct (c : Constructor) : LengthTrack (HttpResponse.construct c) none := by
  cases c with
  | plain => exact .absent HttpHeaders.distinct_nil fun g hg => by cases hg
  | ofStatus status => exact .absent HttpHeaders.distinct_nil fun g hg => by cases hg
  | ofBody status body => exact .setBody HttpHeaders.distinct_nil body
  | ofHeaders status headers body => exact .setBody (HttpHeaders.built_distinct headers) body

theorem LengthTrack.built (c : Constructor) (setters : List Setter) :
    LengthTrack (HttpResponse.built c setters) (handText setters) := by
  induction setters using List.reverseRecOn with
  | nil => exact .construct c
  | append_singleton setters s ih =>
    rw [HttpResponse.built, handText, List.foldl_append, List.foldl_append]
    exact ih.apply s
end track

/-! ### The length of what is built -/

theorem length_of_isValid {r : HttpResponse} {n : ℕ} (hvalid : r.isValid = true)
    (hget : r.headOnly = false)
    (hread : r.headers.get (ascii "Content-Length") = decimalText n) : n = r.body.length := by
  have hdecimal := isDecimal_decimalText n
  simp only [HttpResponse.isValid, hread, stoul_digits hdecimal, Bool.and_eq_true,
    Bool.or_eq_true, beq_iff_eq, hdecimal.1, false_or, hget] at hvalid
  have hlength := hvalid.2
  split at hlength
  · cases hlength
  · rename_i m hm
    split at hm
    · cases hm
    · rw [Option.some.inj hm]
      simpa using hlength

/-- The field of a response that is written and not to HEAD tells the length of its body just where
what was last set by hand, if it still stands, is a number in plain decimal form. -/
theorem truthful_iff (c : Constructor) (setters : List Setter)
    (hsent : serialize (HttpResponse.built c setters) ≠ [])
    (hget : (HttpResponse.built c setters).headOnly = false) :
    Truthful (HttpResponse.built c setters) ↔
      ∀ text, handText setters = some text → ∃ n, trimWhitespace text = decimalText n := by
  have hversion := HttpResponse.built_version c setters
  have htrack := LengthTrack.built c setters
  generalize HttpResponse.built c setters = r at *
  generalize handText setters = last at *
  have hvalid : r.isValid = true := by
    by_contra hnot
    rw [serialize, if_neg hnot] at hsent
    exact hsent rfl
  have hparts := wireParts_serialize hversion hvalid
  rw [hget, if_neg Bool.false_ne_true] at hparts
  have hlength : Truthful r ↔ ∀ h ∈ r.headers, h.normalizedName = lengthKey →
      h.value = decimalText r.body.length := by
    constructor
    · intro h g hg hkey
      exact h g hg hkey _ _ hparts
    · intro h g hg hkey head body hbody
      rw [hparts] at hbody
      rw [← (Prod.mk.inj (Option.some.inj hbody)).2]
      exact h g hg hkey
  rw [hlength]
  constructor
  · intro h text htext
    obtain ⟨g, hg, hkey, hvalue⟩ := htrack.byHand text htext
    exact ⟨r.body.length, hvalue.symm.trans (h g hg hkey)⟩
  · intro h
    cases last with
    | none => exact htrack.measured rfl
    | some text =>
      obtain ⟨n, hn⟩ := h text rfl
      obtain ⟨g, hg, hkey, hvalue⟩ := htrack.byHand text rfl
      have hread : ∀ g' ∈ r.headers, g'.normalizedName = lengthKey →
          r.headers.get (ascii "Content-Length") = g'.value :=
        fun g' hg' hkey' => HttpHeaders.get_of_mem htrack.distinct hg' hkey'
      have hvalue' := (hread g hg hkey).trans (hvalue.trans hn)
      have hsame := length_of_isValid hvalid hget hvalue'
      intro g' hg' hkey'
      rw [← hread g' hg' hkey', hvalue', hsame]

/-- Five bytes and a length that only begins with a number. -/
theorem length_with_tail : ¬∀ (c : Constructor) (setters : List Setter),
    serialize (HttpResponse.built c setters) ≠ [] →
      (HttpResponse.built c setters).headOnly = false →
        Truthful (HttpResponse.built c setters) := by
  intro h
  have htrue := h .plain [.body (ascii "Hello"), .header (ascii "Content-Length") (ascii "5abc")]
    (by decide) rfl
  have hfalse := htrue (.ofField (ascii "Content-Length") (ascii "5abc")) (by decide) rfl
    (ascii "HTTP/1.1 200 OK\r\nContent-Length: 5abc") (ascii "Hello") (by decide)
  exact absurd hfalse (by decide)

theorem truthful_iff_hello :
    Truthful (HttpResponse.built (.ofBody .ok (ascii "Hello")) [.connectionPolicy .close]) ↔
      ∀ text, handText [.connectionPolicy .close] = some text →
        ∃ n, trimWhitespace text = decimalText n :=
  truthful_iff (.ofBody .ok (ascii "Hello")) [.connectionPolicy .close] (by decide) rfl

end Aevrix.Http
