import Aevrix.Incremental.Splits
import Aevrix.Proxy.FinalHead
import Aevrix.Proxy.Tokens

/-!
# The transfer codings of an upstream response

The contract of the parser is that `chunked` is the sole transfer coding
(`proxy_response_parser.h:23-27`). What it looks for in each `Transfer-Encoding` field is the
token `chunked` between separators, so other codings may stand around it. The contract is kept
exactly by the heads with one such field and no separator in its value (`sole_coding_iff`).
-/

namespace Aevrix.Proxy
open Aevrix.Http Incremental ProxyResponseParser ProxyResponseParser.Core

/-! ### Tokens in a list -/

theorem isSeparator_toLower (c : Byte) : isSeparator (toLower c) = isSeparator c := by
  unfold toLower
  split
  · rename_i hupper
    unfold isUpper at hupper
    unfold isSeparator isOws
    grind
  · rfl

/-! ### Codings -/

/-- The values of the `Transfer-Encoding` lines. -/
def codingValues (fields : List Bytes) : List Bytes :=
  (fields.filter fun line => fieldKey line == ascii "transfer-encoding").map fieldValue

/-- The transfer codings: the values of all lines, split at the commas and trimmed. -/
def transferCodings (fields : List Bytes) : List Bytes :=
  (codingValues fields).flatMap fun value => (value.splitOn 44).map trimOws

/-- `chunked` is the sole coding, in any letter case. -/
def SoleChunked (codings : List Bytes) : Prop :=
  ∃ coding, codings = [coding] ∧ coding.map toLower = ascii "chunked"

/-- There is one `Transfer-Encoding` line, and no comma, space or tab in its value. -/
def OneBareCoding (fields : List Bytes) : Prop :=
  ∃ value, codingValues fields = [value] ∧ ∀ c ∈ value, isSeparator c = false

/-- The parser completes the response with `Framing::Chunked`. -/
def CompletesChunked (config : Config) (ds : List Bytes) (eof : Bool) : Prop :=
  (endOf config ds eof).isComplete = true ∧ (endOf config ds eof).framing = .chunked

theorem trimOws_fieldValue (line : Bytes) : trimOws (fieldValue line) = fieldValue line :=
  trimBy_idem isOws _

theorem mem_codingValues {fields : List Bytes} {value : Bytes} (h : value ∈ codingValues fields) :
    ∃ line ∈ fields, fieldKey line = ascii "transfer-encoding" ∧ fieldValue line = value := by
  obtain ⟨line, hline, rfl⟩ := List.mem_map.mp h
  obtain ⟨hmem, hkey⟩ := List.mem_filter.mp hline
  exact ⟨line, hmem, beq_iff_eq.mp hkey, rfl⟩

theorem trimOws_codingValues {fields : List Bytes} {value : Bytes}
    (h : value ∈ codingValues fields) : trimOws value = value := by
  obtain ⟨line, -, -, rfl⟩ := mem_codingValues h
  exact trimOws_fieldValue line

theorem codingValues_of_single {fields : List Bytes} {coding : Bytes}
    (h : transferCodings fields = [coding]) : codingValues fields = [coding] := by
  unfold transferCodings at h
  cases hvalues : codingValues fields with
  | nil =>
    rw [hvalues] at h
    cases h
  | cons value rest =>
    have htrim : trimOws value = value :=
      trimOws_codingValues (hvalues ▸ List.mem_cons_self)
    obtain ⟨piece, more, hpieces⟩ := List.exists_cons_of_ne_nil (List.splitOn_ne_nil 44 value)
    rw [hvalues, List.flatMap_cons, hpieces, List.map_cons, List.cons_append,
      List.cons.injEq] at h
    obtain ⟨hcoding, hnone⟩ := h
    obtain ⟨hmore, hrest⟩ := List.append_eq_nil_iff.mp hnone
    rw [List.map_eq_nil_iff.mp hmore] at hpieces
    have hwhole : [(44 : Byte)].intercalate (value.splitOn 44) = value :=
      List.intercalate_splitOn 44
    rw [hpieces, List.intercalate_singleton] at hwhole
    rw [← hcoding, hwhole, htrim]
    cases rest with
    | nil => rfl
    | cons other others =>
      obtain ⟨first, hfirst⟩ := List.exists_mem_of_ne_nil _ (List.splitOn_ne_nil 44 other)
      have hin : trimOws first ∈ (other :: others).flatMap fun v => (v.splitOn 44).map trimOws :=
        List.mem_flatMap.mpr ⟨other, List.mem_cons_self, List.mem_map_of_mem hfirst⟩
      rw [hrest] at hin
      cases hin

theorem chunked_bare {coding : Bytes} (h : coding.map toLower = ascii "chunked") :
    ∀ c ∈ coding, isSeparator c = false := by
  have hnone : ∀ c ∈ ascii "chunked", isSeparator c = false := by decide
  intro c hc
  rw [← isSeparator_toLower]
  exact hnone _ (h ▸ List.mem_map_of_mem hc)

/-- `chunked` is the sole coding of a response that completes with chunked framing exactly when
its head has one `Transfer-Encoding` line and no separator in the value. -/
theorem sole_coding_iff (config : Config) (ds : List Bytes) (eof : Bool)
    (hdone : CompletesChunked config ds eof) {first : Bytes} {fields : List Bytes}
    (hhead : FinalHead ds.flatten first fields) :
    SoleChunked (transferCodings fields) ↔ OneBareCoding fields := by
  obtain ⟨first', fields', hhead', -, hpassed⟩ := head_of_complete hdone.1
  obtain ⟨-, rfl⟩ := hhead'.unique hhead
  constructor
  · rintro ⟨coding, hcodings, hchunked⟩
    exact ⟨coding, codingValues_of_single hcodings, chunked_bare hchunked⟩
  · rintro ⟨value, hvalues, hbare⟩
    obtain ⟨line, hline, hkey, hvalue⟩ := mem_codingValues (hvalues ▸ List.mem_singleton_self value)
    have htoken : containsToken value (ascii "chunked") = true :=
      hvalue ▸ (hpassed line hline).coding hkey
    refine ⟨value, ?_, (containsToken_bare hbare htoken).trans (by decide)⟩
    have hcomma : (44 : Byte) ∉ value := fun hmem => by
      have hsep := hbare 44 hmem
      cases hsep
    have htrim : trimOws value = value :=
      trimOws_codingValues (hvalues ▸ List.mem_singleton_self value)
    rw [transferCodings, hvalues, List.flatMap_cons, List.flatMap_nil, List.append_nil,
      List.splitOn_eq_singleton hcomma, List.map_singleton, htrim]

/-- The head of a chunked response, in two spellings. -/
theorem sole_coding_iff_upper :
    SoleChunked (transferCodings [ascii "TRANSFER-encoding: Chunked "]) ↔
      OneBareCoding [ascii "TRANSFER-encoding: Chunked "] :=
  sole_coding_iff {}
    [ascii "HTTP/1.1 200 OK\r\nTRANSFER-encoding: Chunked \r\n\r\n0\r\n\r\n"] false
    ⟨by decide, by decide⟩
    (show FinalHead _ (ascii "HTTP/1.1 200 OK") _ from
      .final ⟨⟨ascii "0\r\n\r\n", by decide⟩, by decide, by decide⟩ (by decide))

/-- The coding in front of `chunked` is taken off with it. -/
theorem gzip_completes :
    ¬∀ config ds eof, CompletesChunked config ds eof → ∀ first fields,
      FinalHead ds.flatten first fields → SoleChunked (transferCodings fields) := by
  intro h
  have hsole := h {}
    [ascii "HTTP/1.1 200 OK\r\nTransfer-Encoding: gzip, chunked\r\n\r\n0\r\n\r\n"] false
    ⟨by decide, by decide⟩ (ascii "HTTP/1.1 200 OK") [ascii "Transfer-Encoding: gzip, chunked"]
    (.final ⟨⟨ascii "0\r\n\r\n", by decide⟩, by decide, by decide⟩ (by decide))
  obtain ⟨coding, hcodings, -⟩ := hsole
  have htwo : (transferCodings [ascii "Transfer-Encoding: gzip, chunked"]).length = 2 := by decide
  rw [hcodings] at htwo
  cases htwo

end Aevrix.Proxy
