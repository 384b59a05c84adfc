import Aevrix.Config.Parser

/-!
# What a configuration file says (`config_parser.cpp`)

A file is a sequence of lines that assign a value to a key, with blanks wherever they may stand,
and of lines that are passed over. What `parse_file` holds of a key is what the last of its
assignments says, without the blanks around it (`parseFile_lookup`).
-/

namespace Aevrix.Config

inductive ConfigLine where
  | skipped (text : Bytes)
  | assign (pre key mid value : Bytes)

namespace ConfigLine

def bytes : ConfigLine → Bytes
  | skipped text => text
  | assign pre key mid value => pre ++ key ++ mid ++ 61 :: value

/-- A key as it is written: it stands between blanks and the first `=`, and opens no comment. -/
structure IsKey (key : Bytes) : Prop where
  nonempty : key ≠ []
  trimmed : trimBy isConfigSpace key = key
  equals : 61 ∉ key
  comment : key.head? ≠ some 35
  line : LF ∉ key

/-- A line without `=` behind a key: blank, a comment, or neither. -/
def Skipped (text : Bytes) : Prop :=
  trimBy isConfigSpace text = [] ∨ (trimBy isConfigSpace text).head? = some 35 ∨
    (trimBy isConfigSpace text).head? = some 61 ∨ 61 ∉ text

def WellFormed : ConfigLine → Prop
  | skipped text => LF ∉ text ∧ Skipped text
  | assign pre key mid value => IsKey key ∧ (∀ c ∈ pre ++ mid, isConfigSpace c = true) ∧
      LF ∉ pre ++ mid ∧ LF ∉ value

def assignment : ConfigLine → Option (Bytes × Bytes)
  | skipped _ => none
  | assign _ key _ value => some (key, value)

end ConfigLine

def fileBytes (lines : List ConfigLine) : Bytes := [LF].intercalate (lines.map ConfigLine.bytes)

/-- What the last line that assigns a value to the key says. -/
def assigned (lines : List ConfigLine) (key : Bytes) : Option Bytes :=
  (lines.filterMap ConfigLine.assignment).reverse.lookup key

/-! ### One line -/

theorem rdropWhile_behind {p : Byte → Bool} {c : Byte} (hc : p c = false) (front back : Bytes) :
    (front ++ c :: back).rdropWhile p = front ++ c :: back.rdropWhile p := by
  have hstop : ((c :: front.reverse).dropWhile p) = c :: front.reverse :=
    List.dropWhile_cons_of_neg (by rw [hc]; exact Bool.false_ne_true)
  simp only [List.rdropWhile, List.reverse_append, List.reverse_cons, List.append_assoc,
    List.singleton_append]
  rw [List.dropWhile_append]
  split
  · rename_i hnil
    rw [hstop, List.isEmpty_iff.mp hnil]
    simp
  · simp

theorem trimBy_behind {p : Byte → Bool} {v post : Bytes} (hpost : ∀ c ∈ post, p c = true) :
    trimBy p (v ++ post) = trimBy p v := by
  have hpre : ∀ c ∈ ([] : Bytes), p c = true := fun _ hc => by cases hc
  exact trimBy_pad hpre hpost

theorem trimBy_rdropWhile (p : Byte → Bool) (v : Bytes) : trimBy p (v.rdropWhile p) = trimBy p v := by
  have hsplit : v.rdropWhile p ++ v.rtakeWhile p = v := by
    simp only [List.rdropWhile, List.rtakeWhile, ← List.reverse_append,
      List.takeWhile_append_dropWhile, List.reverse_reverse]
  conv_rhs => rw [← hsplit]
  have hback : ∀ c ∈ v.rtakeWhile p, p c = true := fun c hc => List.mem_rtakeWhile_imp hc
  exact (trimBy_behind hback).symm

namespace ConfigParser
variable {p : ConfigParser}

theorem parseLine_skipped {text : Bytes} (h : ConfigLine.Skipped text) : p.parseLine text = p := by
  unfold parseLine
  dsimp only
  rcases h with hnil | hcomment | hequals | hnone
  · rw [if_pos (Or.inl hnil)]
  · rw [if_pos (Or.inr hcomment)]
  · obtain ⟨rest, hrest⟩ : ∃ rest, trimBy isConfigSpace text = 61 :: rest := by
      cases htrimmed : trimBy isConfigSpace text with
      | nil =>
        rw [htrimmed] at hequals
        cases hequals
      | cons c rest =>
        rw [htrimmed] at hequals
        exact ⟨rest, by rw [Option.some.inj hequals]⟩
    rw [hrest]
    rfl
  · have hout : 61 ∉ trimBy isConfigSpace text := fun hin => hnone (mem_of_mem_trimBy hin)
    rw [if_neg hout, ite_self]

theorem front_of_isKey {key : Bytes} (h : ConfigLine.IsKey key) :
    ∃ c rest, key = c :: rest ∧ isConfigSpace c = false := by
  obtain ⟨c, rest, rfl⟩ := List.exists_cons_of_ne_nil h.nonempty
  refine ⟨c, rest, rfl, ?_⟩
  by_contra hblank
  rw [Bool.not_eq_false] at hblank
  have hless := (trimBy_front isConfigSpace (c :: rest)).length_le
  rw [h.trimmed, List.dropWhile_cons_of_pos hblank] at hless
  have hlength := (List.dropWhile_suffix (l := rest) isConfigSpace).length_le
  rw [List.length_cons] at hless
  omega

/-- A line that assigns, without the blanks around it, begins with the key. -/
theorem trimBy_assign {pre key mid value : Bytes}
    (h : (ConfigLine.assign pre key mid value).WellFormed) :
    trimBy isConfigSpace (ConfigLine.assign pre key mid value).bytes =
      key ++ mid ++ 61 :: value.rdropWhile isConfigSpace := by
  obtain ⟨hkey, hspace, -, -⟩ := h
  have hpre : ∀ c ∈ pre, isConfigSpace c = true := fun c hc =>
    hspace c (List.mem_append_left _ hc)
  obtain ⟨c, rest, hcons, hfront⟩ := front_of_isKey hkey
  have hdrop : (key ++ mid ++ 61 :: value).dropWhile isConfigSpace = key ++ mid ++ 61 :: value := by
    rw [hcons, List.cons_append, List.cons_append]
    exact List.dropWhile_cons_of_neg (by rw [hfront]; exact Bool.false_ne_true)
  simp only [ConfigLine.bytes]
  rw [List.append_assoc, List.append_assoc, ← List.append_assoc key, trimBy,
    List.dropWhile_append_of_pos hpre, hdrop]
  exact rdropWhile_behind (by decide) _ _

theorem parseLine_assign {pre key mid value : Bytes}
    (h : (ConfigLine.assign pre key mid value).WellFormed) :
    p.parseLine (ConfigLine.assign pre key mid value).bytes =
      p.set key (trimBy isConfigSpace value) := by
  have htrimmed := trimBy_assign h
  obtain ⟨hkey, hspace, -, -⟩ := h
  have hmid : ∀ c ∈ mid, isConfigSpace c = true := fun c hc =>
    hspace c (List.mem_append_right _ hc)
  obtain ⟨c, rest, hcons⟩ := List.exists_cons_of_ne_nil hkey.nonempty
  have hone : ¬(key ++ mid ++ 61 :: value.rdropWhile isConfigSpace = [] ∨
      (key ++ mid ++ 61 :: value.rdropWhile isConfigSpace).head? = some 35) := by
    have hhead := hkey.comment
    rw [hcons] at hhead ⊢
    rintro (hnil | hcomment)
    · cases hnil
    · exact hhead hcomment
  have hbefore : ∀ c ∈ key ++ mid, (c != 61) = true := by
    intro c hc
    rw [bne_iff_ne]
    rintro rfl
    rcases List.mem_append.mp hc with hin | hin
    · exact hkey.equals hin
    · exact absurd (hmid _ hin) (by decide)
  have htake : (key ++ mid ++ 61 :: value.rdropWhile isConfigSpace).takeWhile (· != 61) =
      key ++ mid := by
    rw [List.takeWhile_append_of_pos hbefore, List.takeWhile_cons_of_neg (by decide),
      List.append_nil]
  have hdrop : ((key ++ mid ++ 61 :: value.rdropWhile isConfigSpace).dropWhile (· != 61)).drop 1 =
      value.rdropWhile isConfigSpace := by
    rw [List.dropWhile_append_of_pos hbefore, List.dropWhile_cons_of_neg (by decide)]
    rfl
  have hname : trimBy isConfigSpace (key ++ mid) = key := by
    rw [trimBy_behind hmid, hkey.trimmed]
  unfold parseLine
  dsimp only
  rw [htrimmed, if_neg hone, if_pos (List.mem_append_right _ List.mem_cons_self), htake, hdrop,
    hname, if_neg hkey.nonempty, trimBy_rdropWhile]

theorem lookup_filter (values : List (Bytes × Bytes)) (key other : Bytes) :
    (values.filter fun e => e.1 != key).lookup other =
      if other = key then none else values.lookup other := by
  induction values with
  | nil => exact (ite_self _).symm
  | cons e values ih =>
    by_cases hkey : e.1 = key
    · rw [List.filter_cons_of_neg (by simp [hkey]), ih, List.lookup_cons]
      by_cases heq : other = key
      · rw [if_pos heq, if_pos heq]
      · rw [if_neg heq, if_neg heq, beq_false_of_ne (hkey.symm ▸ heq)]
    · rw [List.filter_cons_of_pos (by simp [hkey]), List.lookup_cons, List.lookup_cons, ih]
      by_cases heq : other = key
      · rw [if_pos heq, if_pos heq, beq_false_of_ne fun h => hkey (h.symm.trans heq)]
      · rw [if_neg heq, if_neg heq]

theorem lookup_set (key value other : Bytes) : (p.set key value).values.lookup other =
    if other = key then some value else p.values.lookup other := by
  rw [set, List.lookup_append, lookup_filter]
  by_cases heq : other = key
  · rw [if_pos heq, if_pos heq, heq, List.lookup_cons_self]
    rfl
  · rw [if_neg heq, if_neg heq, List.lookup_cons, beq_false_of_ne heq]
    exact Option.or_none

end ConfigParser

/-! ### The file -/

theorem assigned_concat (lines : List ConfigLine) (line : ConfigLine) (key : Bytes) :
    assigned (lines ++ [line]) key = match line.assignment with
      | some (name, value) => if key = name then some value else assigned lines key
      | none => assigned lines key := by
  unfold assigned
  rw [List.filterMap_append]
  cases line with
  | skipped text => simp [ConfigLine.assignment, List.filterMap_cons]
  | assign pre name mid value =>
    simp only [ConfigLine.assignment, List.filterMap_cons, List.filterMap_nil,
      List.reverse_append, List.reverse_singleton, List.singleton_append, List.lookup_cons]
    by_cases heq : key = name
    · rw [if_pos heq, heq, BEq.rfl]
    · rw [if_neg heq, beq_false_of_ne heq]

theorem wellFormed_line {line : ConfigLine} (h : line.WellFormed) : LF ∉ line.bytes := by
  cases line with
  | skipped text => exact h.1
  | assign pre key mid value =>
    obtain ⟨hkey, -, hpad, hvalue⟩ := h
    intro hin
    simp only [ConfigLine.bytes, List.mem_append, List.mem_cons] at hin hpad
    rcases hin with ((hpre | hname) | hmid) | hequals | hback
    · exact hpad (Or.inl hpre)
    · exact hkey.line hname
    · exact hpad (Or.inr hmid)
    · cases hequals
    · exact hvalue hback

/-- Of every key a file leaves what its last assignment says, without the blanks around it. -/
theorem parseFile_lookup {lines : List ConfigLine} (hlines : ∀ line ∈ lines, line.WellFormed)
    (key : Bytes) : (ConfigParser.parseFile (fileBytes lines)).values.lookup key =
      (assigned lines key).map (trimBy isConfigSpace) := by
  have hfold : (((lines.map ConfigLine.bytes).foldl ConfigParser.parseLine {}).values.lookup key) =
      (assigned lines key).map (trimBy isConfigSpace) := by
    induction lines using List.reverseRecOn with
    | nil => rfl
    | append_singleton lines line ih =>
      have hbefore := ih fun line hline => hlines line (List.mem_append_left _ hline)
      have hline := hlines line (List.mem_append_right _ List.mem_cons_self)
      rw [List.map_append, List.foldl_append, assigned_concat]
      show ((ConfigParser.parseLine _ line.bytes).values.lookup key) = _
      cases line with
      | skipped text =>
        rw [show (ConfigLine.skipped text).bytes = text from rfl,
          ConfigParser.parseLine_skipped hline.2, hbefore]
        rfl
      | assign pre name mid value =>
        rw [ConfigParser.parseLine_assign hline, ConfigParser.lookup_set, hbefore]
        dsimp only [ConfigLine.assignment]
        split <;> rfl
  unfold ConfigParser.parseFile fileBytes
  by_cases hempty : lines = []
  · rw [hempty]
    rfl
  · rw [List.splitOn_intercalate LF ?_ fun hnil => hempty (List.map_eq_nil_iff.mp hnil), hfold]
    intro text htext
    obtain ⟨line, hline, rfl⟩ := List.mem_map.mp htext
    exact wellFormed_line (hlines line hline)

end Aevrix.Config
