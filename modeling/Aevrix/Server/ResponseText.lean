import Aevrix.Server.Relay

/-!
# A response read back from its bytes

`readHead` is the client's side of `serialize`: the lines before the first empty one, and
what stands behind it.
-/

namespace Aevrix.Server
open Aevrix.Http Aevrix.Proxy
open Aevrix.Http.HttpResponseSerializer (serialize buildStatusLine buildHeaderLine)

/-- The lines up to the first empty one and the bytes behind it, where `line` was read of
the first line before. -/
def readHeadFrom (line : Bytes) : Bytes → Option (List Bytes × Bytes)
  | 13 :: 10 :: rest =>
    if line = [] then some ([], rest)
    else (readHeadFrom [] rest).map fun (lines, body) => (line :: lines, body)
  | c :: rest => readHeadFrom (line ++ [c]) rest
  | [] => none

def readHead (bytes : Bytes) : Option (List Bytes × Bytes) := readHeadFrom [] bytes

/-- The head carries the line `Connection: policy`. -/
def announces (policy bytes : Bytes) : Bool := match readHead bytes with
  | some (lines, _) => decide (ascii "Connection: " ++ policy ∈ lines)
  | none => false

/-- What stands behind the blank line. -/
def bodyBytes (bytes : Bytes) : Bytes := match readHead bytes with
  | some (_, body) => body
  | none => []

theorem readHeadFrom_line {l : Bytes} (h : LF ∉ l) (line r : Bytes) :
    readHeadFrom line (l ++ crlf ++ r) = readHeadFrom (line ++ l) (crlf ++ r) := by
  induction l generalizing line with
  | nil => rw [List.nil_append, List.append_nil]
  | cons c t ih =>
    rw [List.mem_cons, not_or] at h
    have hnext : ∀ rest, t ++ crlf ++ r ≠ 10 :: rest := by
      intro rest heq
      cases t with
      | nil =>
        rw [List.nil_append, List.cons_append, List.cons.injEq] at heq
        exact CR_ne_LF heq.1
      | cons d t =>
        rw [List.cons_append, List.cons_append, List.cons.injEq] at heq
        exact h.2 (heq.1 ▸ List.mem_cons_self ..)
    rw [List.cons_append, List.cons_append, readHeadFrom, ih h.2, List.append_assoc,
      List.singleton_append]
    intro rest _ hrest
    exact hnext rest hrest

theorem readHead_lineBlock {lines : List Bytes} (h : ∀ l ∈ lines, l ≠ [] ∧ LF ∉ l) (body : Bytes) :
    readHead (lineBlock lines ++ body) = some (lines, body) := by
  unfold readHead
  induction lines with
  | nil => rfl
  | cons l lines ih =>
    obtain ⟨hne, hclean⟩ := h l (List.mem_cons_self ..)
    rw [lineBlock_cons, readHeadFrom_line hclean, List.nil_append]
    change (if l = [] then some ([], lineBlock lines ++ body) else
      (readHeadFrom [] (lineBlock lines ++ body)).map fun x => (l :: x.1, x.2)) = _
    rw [if_neg hne, ih fun x hx => h x (List.mem_cons_of_mem _ hx)]
    rfl

/-! ### Serialized responses -/

theorem buildStatusLine_clean {r : HttpResponse} (hversion : r.version = ascii "HTTP/1.1") :
    buildStatusLine r ≠ [] ∧ LF ∉ buildStatusLine r := by
  refine ⟨by simp [buildStatusLine, ascii], (break_notMem fun c hc => Or.inl ?_).2⟩
  exact buildStatusLine_printable hversion c hc

theorem buildHeaderLine_clean {h : HttpHeader} (hv : h.isValid = true) :
    buildHeaderLine h ≠ [] ∧ LF ∉ buildHeaderLine h :=
  ⟨by simp [buildHeaderLine, ascii], (break_notMem (buildHeaderLine_printable hv)).2⟩

theorem readHead_serialize {r : HttpResponse} (hversion : r.version = ascii "HTTP/1.1")
    (hvalid : r.isValid = true) : readHead (serialize r) =
      some (buildStatusLine r :: r.headers.map buildHeaderLine,
        if r.hasBody && !r.headOnly then r.body else []) := by
  have hheaders : ∀ h ∈ r.headers, h.isValid = true := by
    rw [HttpResponse.isValid, Bool.and_eq_true, List.all_eq_true] at hvalid
    exact hvalid.1
  have hblock : headBlock (buildStatusLine r) (r.headers.map buildHeaderLine) =
      lineBlock (buildStatusLine r :: r.headers.map buildHeaderLine) := by
    simp only [headBlock, lineBlock, List.flatMap_cons, List.append_assoc]
  rw [serialize, if_pos hvalid, hblock]
  refine readHead_lineBlock (fun l hl => ?_) _
  rcases List.mem_cons.mp hl with rfl | hl
  · exact buildStatusLine_clean hversion
  · obtain ⟨h, hh, rfl⟩ := List.mem_map.mp hl
    exact buildHeaderLine_clean (hheaders h hh)

theorem serialize_eq_nil {r : HttpResponse} : serialize r = [] ↔ r.isValid = false := by
  constructor
  · intro h
    cases hvalid : r.isValid with
    | false => rfl
    | true =>
      rw [serialize, if_pos hvalid] at h
      simp [headBlock] at h
  · intro h
    rw [serialize, if_neg (by rw [h]; exact Bool.false_ne_true)]

theorem header_name_of_line {h : HttpHeader} (hv : h.isValid = true) {value : Bytes}
    (hline : buildHeaderLine h = ascii "Connection: " ++ value) : h.name = ascii "Connection" := by
  obtain ⟨f, rfl, hbytes, -⟩ := exists_field hv
  have hname := f.takeWhile_bytes
  rw [hbytes, hline] at hname
  rw [ResponseField.header, HttpHeader.ofField_name, ← hname]
  rfl

/-- The value `set_connection_policy` writes. -/
def policyText : ConnectionPolicy → Bytes
  | .keepAlive => ascii "keep-alive"
  | .close => ascii "close"

theorem announces_serialize {r : HttpResponse} (policy : ConnectionPolicy)
    (hversion : r.version = ascii "HTTP/1.1") (hd : r.headers.Distinct)
    (hsent : serialize (r.setConnectionPolicy policy) ≠ []) :
    announces (ascii "close") (serialize (r.setConnectionPolicy policy)) = (policy == .close) ∧
      announces (ascii "keep-alive") (serialize (r.setConnectionPolicy policy)) =
        (policy == .keepAlive) := by
  have hvalid : (r.setConnectionPolicy policy).isValid = true := by
    rw [ne_eq, serialize_eq_nil] at hsent
    simpa using hsent
  have hheaders : ∀ h ∈ (r.setConnectionPolicy policy).headers, h.isValid = true := by
    rw [HttpResponse.isValid, Bool.and_eq_true, List.all_eq_true] at hvalid
    exact hvalid.1
  have hline : ∀ value, ascii "Connection: " ++ value ∈
      buildStatusLine (r.setConnectionPolicy policy) ::
        (r.setConnectionPolicy policy).headers.map buildHeaderLine ↔
      value = policyText policy := by
    intro value
    have hset : (r.setConnectionPolicy policy).headers =
        r.headers.set (ascii "Connection") (policyText policy) := rfl
    have htrim : trimWhitespace (policyText policy) = policyText policy := by
      cases policy <;> decide
    rw [List.mem_cons, List.mem_map]
    constructor
    · rintro (h | ⟨h, hmem, hline⟩)
      · rw [buildStatusLine, show (r.setConnectionPolicy policy).version = _ from hversion] at h
        simp [ascii] at h
      · rw [hset, HttpHeaders.mem_set hd] at hmem
        have hname := header_name_of_line (hheaders h (hset ▸ (HttpHeaders.mem_set hd _ _ h).mpr hmem))
          hline
        rcases hmem with rfl | ⟨-, hother⟩
        · exact (List.append_cancel_left hline).symm.trans htrim
        · rw [HttpHeader.normalizedName, hname] at hother
          exact (hother rfl).elim
    · rintro rfl
      refine Or.inr ⟨_, hset ▸ (HttpHeaders.mem_set hd _ _ _).mpr (Or.inl rfl), ?_⟩
      rw [buildHeaderLine, HttpHeader.ofField_name, HttpHeader.ofField_value, htrim]
      rfl
  unfold announces
  rw [readHead_serialize (r := r.setConnectionPolicy policy) hversion hvalid]
  simp only [hline]
  cases policy with
  | keepAlive => decide
  | close => decide

end Aevrix.Server
