import Aevrix.Http.Bytes

/-!
# Header fields (`http_header.h`)

`HttpHeader` keeps the name as received and the value trimmed; names compare
through their lower-case form. `HttpHeaders` is a vector with at most one entry a
name: `set` replaces in place or appends.
-/

namespace Aevrix.Http

/-- Whitespace removed around a stored value (`http_header.h:340-348`). -/
def isTrimmable (c : Byte) : Bool := c == 32 || c == 9 || c == 13 || c == 10
def trimWhitespace (v : Bytes) : Bytes := trimBy isTrimmable v

theorem trimWhitespace_digits {v : Bytes} (h : ∀ c ∈ v, isDigit c = true) :
    trimWhitespace v = v := by
  refine trimBy_of_none fun c hc => ?_
  have hd := h c hc
  unfold isDigit at hd
  unfold isTrimmable
  grind

/-- A stored header; the constructor is the only way in, so a stored value is trimmed. -/
structure HttpHeader where
  name : Bytes
  value : Bytes
  trimmed : trimWhitespace value = value
  deriving DecidableEq

namespace HttpHeader

/-- `HttpHeader(name, value)` (`http_header.h:326-329`). -/
def ofField (name value : Bytes) : HttpHeader :=
  ⟨name, trimWhitespace value, trimBy_idem isTrimmable value⟩

def normalizeName (name : Bytes) : Bytes := name.map toLower
def normalizedName (h : HttpHeader) : Bytes := normalizeName h.name

/-- The token characters of a field name. -/
def isTokenChar (c : Byte) : Bool := isAlnum c || decide (c ∈ ascii "!#$%&'*+-.^_`|~")
def isValidName (h : HttpHeader) : Bool := !h.name.isEmpty && h.name.all isTokenChar

/-- `c == '\0' || (c < ' ' && c != ' ' && c != '\t')` on `char`, which is signed on
the x86-64 builds: the bytes from 128 on are negative and are refused with the
controls. -/
def isControl (c : Byte) : Bool := c == 0 || ((decide (c < 32) || decide (128 ≤ c)) && c != 9)
def isValidValue (h : HttpHeader) : Bool := h.value.all fun c => !isControl c
def isValid (h : HttpHeader) : Bool := h.isValidName && h.isValidValue

@[simp] theorem ofField_name (n v : Bytes) : (ofField n v).name = n := rfl
@[simp] theorem ofField_value (n v : Bytes) : (ofField n v).value = trimWhitespace v := rfl
@[simp] theorem ofField_normalizedName (n v : Bytes) :
    (ofField n v).normalizedName = normalizeName n := rfl

@[ext] theorem ext {g h : HttpHeader} (hn : g.name = h.name) (hv : g.value = h.value) : g = h := by
  cases g
  cases h
  simp only at hn hv
  subst hn hv
  rfl

theorem ofField_self (h : HttpHeader) : ofField h.name h.value = h := ext rfl h.trimmed

theorem isValidName_iff (n v : Bytes) :
    (ofField n v).isValidName = true ↔ n ≠ [] ∧ ∀ c ∈ n, isTokenChar c = true := by
  simp [isValidName]

end HttpHeader

theorem isTokenChar_not {c : Byte} (h : HttpHeader.isTokenChar c = true) :
    isOws c = false ∧ c ≠ 58 ∧ c ≠ LF := by
  have hpunct : ∀ d ∈ ascii "!#$%&'*+-.^_`|~", isOws d = false ∧ d ≠ 58 ∧ d ≠ LF := by
    decide
  rcases Bool.or_eq_true_iff.mp h with h | h
  · unfold isAlnum isDigit isUpper isLower at h
    unfold isOws
    grind
  · exact hpunct c (of_decide_eq_true h)

theorem contentLength_token : ascii "Content-Length" ≠ [] ∧
    ∀ c ∈ ascii "Content-Length", HttpHeader.isTokenChar c = true := by decide

theorem isOws_not {c : Byte} (h : isOws c = true) : c ≠ 58 ∧ c ≠ LF := by
  unfold isOws at h
  grind

/-- The vector behind the class `HttpHeaders`. -/
abbrev HttpHeaders := List HttpHeader

namespace HttpHeaders
open HttpHeader

/-- `HttpHeaders::set` (`http_header.h:386-397`). -/
def set : HttpHeaders → Bytes → Bytes → HttpHeaders
  | [], name, value => [ofField name value]
  | h :: hs, name, value =>
    if h.normalizedName = normalizeName name then ofField name value :: hs else h :: set hs name value

def findByName (hs : HttpHeaders) (name : Bytes) : Option HttpHeader :=
  hs.find? fun h => h.normalizedName == normalizeName name

/-- `HttpHeaders::get`: the empty string when the name is absent. -/
def get (hs : HttpHeaders) (name : Bytes) : Bytes := match findByName hs name with
  | some h => h.value
  | none => []

def has (hs : HttpHeaders) (name : Bytes) : Bool := (findByName hs name).isSome

theorem get_congr (hs : HttpHeaders) {name other : Bytes}
    (h : normalizeName name = normalizeName other) : hs.get name = hs.get other := by
  simp only [get, findByName, h]

theorem set_new {hs : HttpHeaders} {name : Bytes} (value : Bytes)
    (h : ∀ g ∈ hs, g.normalizedName ≠ normalizeName name) :
    set hs name value = hs ++ [ofField name value] := by
  induction hs with
  | nil => rfl
  | cons g gs ih =>
    have hg : g.normalizedName ≠ normalizeName name := h g (List.mem_cons_self ..)
    rw [set, if_neg hg, ih fun x hx => h x (List.mem_cons_of_mem _ hx), List.cons_append]

theorem findByName_set_self (hs : HttpHeaders) (name value : Bytes) :
    findByName (set hs name value) name = some (ofField name value) := by
  induction hs with
  | nil => simp [set, findByName]
  | cons g gs ih =>
    by_cases hg : g.normalizedName = normalizeName name
    · simp [set, findByName, hg]
    · rw [set, if_neg hg]
      simpa [findByName, hg] using ih

theorem findByName_set_other (hs : HttpHeaders) {name other : Bytes} (value : Bytes)
    (h : normalizeName other ≠ normalizeName name) :
    findByName (set hs name value) other = findByName hs other := by
  induction hs with
  | nil => simp [set, findByName, h.symm]
  | cons g gs ih =>
    by_cases hg : g.normalizedName = normalizeName name
    · simp [set, findByName, hg, h.symm]
    · rw [set, if_neg hg]
      simp only [findByName, List.find?_cons] at ih ⊢
      rw [ih]

@[simp] theorem get_set_self (hs : HttpHeaders) (name value : Bytes) :
    get (set hs name value) name = trimWhitespace value := by
  simp [get, findByName_set_self]

theorem get_set_other (hs : HttpHeaders) {name other : Bytes} (value : Bytes)
    (h : normalizeName other ≠ normalizeName name) :
    get (set hs name value) other = get hs other := by
  simp [get, findByName_set_other hs value h]

/-! One entry a name, whatever is set. -/

/-- No two entries share a name. -/
def Distinct (hs : HttpHeaders) : Prop := (hs.map normalizedName).Nodup

theorem distinct_nil : Distinct [] := List.nodup_nil

theorem mem_set {hs : HttpHeaders} (hd : Distinct hs) (name value : Bytes) (h : HttpHeader) :
    h ∈ hs.set name value ↔
      h = ofField name value ∨ h ∈ hs ∧ h.normalizedName ≠ normalizeName name := by
  induction hs with
  | nil => simp [set]
  | cons g gs ih =>
    obtain ⟨hg, hgs⟩ := List.nodup_cons.mp hd
    by_cases hname : g.normalizedName = normalizeName name
    · have hother : h ∈ gs → h.normalizedName ≠ normalizeName name := fun hm heq =>
        hg (List.mem_map.mpr ⟨h, hm, heq.trans hname.symm⟩)
      rw [set, if_pos hname, List.mem_cons, List.mem_cons]
      constructor
      · rintro (h1 | h1)
        · exact Or.inl h1
        · exact Or.inr ⟨Or.inr h1, hother h1⟩
      · rintro (h1 | ⟨rfl | h1, h2⟩)
        · exact Or.inl h1
        · exact (h2 hname).elim
        · exact Or.inr h1
    · rw [set, if_neg hname, List.mem_cons, List.mem_cons, ih hgs]
      constructor
      · rintro (rfl | h1 | ⟨h1, h2⟩)
        · exact Or.inr ⟨Or.inl rfl, hname⟩
        · exact Or.inl h1
        · exact Or.inr ⟨Or.inr h1, h2⟩
      · rintro (h1 | ⟨rfl | h1, h2⟩)
        · exact Or.inr (Or.inl h1)
        · exact Or.inl rfl
        · exact Or.inr (Or.inr ⟨h1, h2⟩)

theorem Distinct.set {hs : HttpHeaders} (hd : Distinct hs) (name value : Bytes) :
    Distinct (hs.set name value) := by
  induction hs with
  | nil => simp [HttpHeaders.set, Distinct]
  | cons g gs ih =>
    obtain ⟨hg, hgs⟩ := List.nodup_cons.mp hd
    by_cases hname : g.normalizedName = normalizeName name
    · rw [HttpHeaders.set, if_pos hname]
      exact List.nodup_cons.mpr ⟨by rwa [ofField_normalizedName, ← hname], hgs⟩
    · rw [HttpHeaders.set, if_neg hname]
      refine List.nodup_cons.mpr ⟨fun hm => ?_, ih hgs⟩
      obtain ⟨k, hk, hkg⟩ := List.mem_map.mp hm
      rcases (mem_set hgs name value k).mp hk with rfl | ⟨hk, -⟩
      · exact hname hkg.symm
      · exact hg (List.mem_map.mpr ⟨k, hk, hkg⟩)

theorem findByName_of_mem {hs : HttpHeaders} (hd : Distinct hs) {h : HttpHeader} (hm : h ∈ hs)
    {name : Bytes} (hname : h.normalizedName = normalizeName name) :
    findByName hs name = some h := by
  induction hs with
  | nil => cases hm
  | cons g gs ih =>
    obtain ⟨hg, hgs⟩ := List.nodup_cons.mp hd
    rw [findByName, List.find?_cons]
    rcases List.mem_cons.mp hm with rfl | hm
    · rw [beq_iff_eq.mpr hname]
    · have hne : g.normalizedName ≠ normalizeName name := fun heq =>
        hg (List.mem_map.mpr ⟨h, hm, hname.trans heq.symm⟩)
      rw [beq_false_of_ne hne]
      exact ih hgs hm

theorem get_of_mem {hs : HttpHeaders} (hd : Distinct hs) {h : HttpHeader} (hm : h ∈ hs)
    {name : Bytes} (hname : h.normalizedName = normalizeName name) : hs.get name = h.value := by
  rw [get, findByName_of_mem hd hm hname]

theorem mem_of_findByName {hs : HttpHeaders} {name : Bytes} {h : HttpHeader}
    (hf : findByName hs name = some h) : h ∈ hs ∧ h.normalizedName = normalizeName name :=
  ⟨List.mem_of_find?_eq_some hf, by simpa using List.find?_some hf⟩

theorem findByName_eq_none {hs : HttpHeaders} {name : Bytes} :
    findByName hs name = none ↔ ∀ h ∈ hs, h.normalizedName ≠ normalizeName name := by
  simp [findByName]

theorem foldl_set_distinct {α : Type*} (name value : α → Bytes) (xs : List α) (hs : HttpHeaders)
    (h : Distinct (hs ++ xs.map fun x => ofField (name x) (value x))) :
    xs.foldl (fun hs x => hs.set (name x) (value x)) hs =
      hs ++ xs.map fun x => ofField (name x) (value x) := by
  induction xs generalizing hs with
  | nil => simp
  | cons x xs ih =>
    have hnew : ∀ g ∈ hs, g.normalizedName ≠ normalizeName (name x) := by
      intro g hg heq
      rw [Distinct, List.map_append, List.map_cons] at h
      exact (List.nodup_append.mp h).2.2 _ (List.mem_map_of_mem hg) _ (List.mem_cons_self ..) heq
    rw [List.foldl_cons, set_new _ hnew, ih]
    · rw [List.map_cons, List.append_assoc, List.singleton_append]
    · rwa [List.append_assoc, List.singleton_append]

end HttpHeaders
end Aevrix.Http
