import Aevrix.Http.Setters
import Aevrix.Incremental.Blocks

/-!
# The serialized text of a response (`http_response_serializer.h`)

The text is cut at its first blank line into head and body, and the head at its line ends. Whatever
strings a response is built from, the lines are the status line and one for each stored header.
-/

namespace Aevrix.Http
open Incremental.Blocks
open HttpResponseSerializer (serialize buildStatusLine buildHeaderLine)

/-- The head and the body of a text: what stands before its first blank line and behind it. -/
def wireParts (text : Bytes) : Option (Bytes × Bytes) := cutAt (crlf ++ crlf) text

/-- The lines of a response to be written. -/
def wireLines (r : HttpResponse) : List Bytes := buildStatusLine r :: r.headers.map buildHeaderLine

/-! ### Bytes of a line -/

theorem isTokenChar_printable {c : Byte} (h : HttpHeader.isTokenChar c = true) : 32 ≤ c := by
  have hpunct : ∀ d ∈ ascii "!#$%&'*+-.^_`|~", (32 : Byte) ≤ d := by decide
  rcases Bool.or_eq_true_iff.mp h with h | h
  · unfold isAlnum isDigit isUpper isLower at h
    grind
  · exact hpunct c (of_decide_eq_true h)

theorem statusCodeToString_printable (status : StatusCode) :
    ∀ c ∈ statusCodeToString status, 32 ≤ c := by
  unfold statusCodeToString
  split <;> decide

theorem decimalText_printable (n : ℕ) : ∀ c ∈ decimalText n, 32 ≤ c := by
  intro c hc
  have hdigit := (isDecimal_decimalText n).2.1 c hc
  unfold isDigit at hdigit
  grind

theorem buildStatusLine_printable {r : HttpResponse} (hversion : r.version = ascii "HTTP/1.1") :
    ∀ c ∈ buildStatusLine r, 32 ≤ c := by
  have htext : ∀ c ∈ ascii "HTTP/1.1", (32 : Byte) ≤ c := by decide
  have hspace : ∀ c ∈ ascii " ", (32 : Byte) ≤ c := by decide
  intro c hc
  rw [buildStatusLine, hversion, List.mem_append, List.mem_append, List.mem_append,
    List.mem_append] at hc
  rcases hc with (((hc | hc) | hc) | hc) | hc
  · exact htext c hc
  · exact hspace c hc
  · exact decimalText_printable _ c hc
  · exact hspace c hc
  · exact statusCodeToString_printable _ c hc

theorem buildHeaderLine_printable {h : HttpHeader} (hv : h.isValid = true) :
    ∀ c ∈ buildHeaderLine h, 32 ≤ c ∨ c = 9 := by
  rw [HttpHeader.isValid, Bool.and_eq_true, HttpHeader.isValidValue, List.all_eq_true,
    HttpHeader.isValidName, Bool.and_eq_true, List.all_eq_true] at hv
  obtain ⟨⟨-, hname⟩, hvalue⟩ := hv
  have hcolon : ∀ c ∈ ascii ": ", (32 : Byte) ≤ c := by decide
  intro c hc
  rw [buildHeaderLine, List.mem_append, List.mem_append] at hc
  rcases hc with (hc | hc) | hc
  · exact Or.inl (isTokenChar_printable (hname c hc))
  · exact Or.inl (hcolon c hc)
  · have hclean := hvalue c hc
    unfold HttpHeader.isControl at hclean
    grind

theorem break_notMem {line : Bytes} (h : ∀ c ∈ line, 32 ≤ c ∨ c = 9) : CR ∉ line ∧ LF ∉ line := by
  constructor
  · intro hmem
    exact absurd (h CR hmem) (by decide)
  · intro hmem
    exact absurd (h LF hmem) (by decide)

/-! ### The text -/

section wire
variable {r : HttpResponse}

theorem wireLines_clean (hversion : r.version = ascii "HTTP/1.1") (hvalid : r.isValid = true) :
    ∀ line ∈ wireLines r, line ≠ [] ∧ CR ∉ line ∧ LF ∉ line := by
  rw [HttpResponse.isValid, Bool.and_eq_true, List.all_eq_true] at hvalid
  intro line hline
  rcases List.mem_cons.mp hline with rfl | hline
  · refine ⟨by simp [buildStatusLine, ascii], break_notMem fun c hc => Or.inl ?_⟩
    exact buildStatusLine_printable hversion c hc
  · obtain ⟨h, hh, rfl⟩ := List.mem_map.mp hline
    exact ⟨by simp [buildHeaderLine, ascii],
      break_notMem (buildHeaderLine_printable (hvalid.1 h hh))⟩

theorem flatMap_crlf {lines : List Bytes} (hne : lines ≠ []) :
    lines.flatMap (· ++ crlf) = crlf.intercalate lines ++ crlf := by
  induction lines with
  | nil => exact (hne rfl).elim
  | cons line lines ih =>
    cases lines with
    | nil => rw [List.flatMap_cons, List.flatMap_nil, List.append_nil, List.intercalate_singleton]
    | cons line' lines =>
      rw [List.flatMap_cons, ih (List.cons_ne_nil _ _), List.intercalate_cons_cons]
      simp only [List.append_assoc]

theorem serialize_eq (hvalid : r.isValid = true) :
    serialize r = crlf.intercalate (wireLines r) ++
      (crlf ++ crlf ++ if r.headOnly then [] else r.body) := by
  have hbody : (if r.hasBody && !r.headOnly then r.body else []) =
      if r.headOnly then [] else r.body := by
    cases r.headOnly with
    | true => rw [Bool.not_true, Bool.and_false, if_neg Bool.false_ne_true, if_pos rfl]
    | false =>
      cases hbody : r.body with
      | nil => simp
      | cons b t => simp [HttpResponse.hasBody, hbody]
  rw [serialize, if_pos hvalid, hbody, headBlock, lineBlock, ← List.append_assoc,
    ← List.flatMap_cons (f := fun line : Bytes => line ++ crlf)]
  rw [show buildStatusLine r :: r.headers.map buildHeaderLine = wireLines r from rfl,
    flatMap_crlf (show wireLines r ≠ [] from List.cons_ne_nil _ _)]
  simp only [List.append_assoc]

theorem wireParts_serialize (hversion : r.version = ascii "HTTP/1.1") (hvalid : r.isValid = true) :
    wireParts (serialize r) =
      some (crlf.intercalate (wireLines r), if r.headOnly then [] else r.body) := by
  rw [serialize_eq hvalid]
  exact cutAt_join CR_ne_LF (List.cons_ne_nil _ _)
    (fun line hline => ⟨(wireLines_clean hversion hvalid line hline).1,
      (wireLines_clean hversion hvalid line hline).2.1⟩) _
end wire

/-- Whatever it is built from, a response is written as its status line and one line for each
header, with no other line break among them, and its body behind the first blank line; or it is not
written at all. -/
theorem serialize_safe (c : HttpResponse.Constructor) (setters : List HttpResponse.Setter) :
    serialize (HttpResponse.built c setters) = [] ∨
      ∃ head, wireParts (serialize (HttpResponse.built c setters)) =
          some (head, if (HttpResponse.built c setters).headOnly then []
            else (HttpResponse.built c setters).body) ∧
        splitPairs CR LF head = buildStatusLine (HttpResponse.built c setters) ::
          (HttpResponse.built c setters).headers.map buildHeaderLine ∧
        ∀ line ∈ splitPairs CR LF head, CR ∉ line ∧ LF ∉ line := by
  have hversion := HttpResponse.built_version c setters
  generalize HttpResponse.built c setters = r at hversion ⊢
  cases hvalid : r.isValid with
  | false =>
    left
    rw [serialize, if_neg (by rw [hvalid]; exact Bool.false_ne_true)]
  | true =>
    right
    have hclean := wireLines_clean hversion hvalid
    have hsplit : splitPairs CR LF (crlf.intercalate (wireLines r)) = wireLines r :=
      splitPairs_join (List.cons_ne_nil _ _) fun line hline => (hclean line hline).2.1
    refine ⟨_, wireParts_serialize hversion hvalid, hsplit, ?_⟩
    rw [hsplit]
    exact fun line hline => (hclean line hline).2

end Aevrix.Http
