import Aevrix.Http.Bytes

/-!
# Paths and their lexical operations

`std::filesystem::path` on POSIX systems as the elements its iterator yields: a root directory
or none, then the names; a path that ends in a slash has an empty last name. The operations
here look at no file system.
-/

namespace Aevrix.Filesystem

abbrev Name := Bytes

def dot : Name := [46]
def dotdot : Name := [46, 46]

structure Path where
  rooted : Bool
  names : List Name
  deriving DecidableEq

namespace Path

/-- The path of a string; repeated slashes count once. -/
def parse (s : Bytes) : Path :=
  let names := (s.splitOn 47).filter fun name => !name.isEmpty
  { rooted := s.head? == some 47
    names := if names ≠ [] ∧ s.getLast? = some 47 then names ++ [[]] else names }

/-- `path::string`. -/
def text (p : Path) : Bytes := (if p.rooted then [47] else []) ++ [47].intercalate p.names

def isEmpty (p : Path) : Bool := !p.rooted && p.names.isEmpty

/-- The names without the empty one of a trailing slash. -/
def stem (names : List Name) : List Name :=
  if names.getLast? = some [] then names.dropLast else names

/-- `p / q`. -/
def append (p q : Path) : Path :=
  if q.rooted then q
  else if q.names = [] then { p with names := if p.names = [] then [] else stem p.names ++ [[]] }
  else { p with names := stem p.names ++ q.names }

/-- The names without `.`, and without `..` behind a name; the stack has the last one first. -/
def normalNames (rooted : Bool) : List Name → List Name → List Name
  | stack, [] => stack.reverse
  | stack, name :: rest =>
    if name = [] ∨ name = dot then normalNames rooted stack rest
    else if name = dotdot then match stack with
      | [] => normalNames rooted (if rooted then [] else [dotdot]) rest
      | top :: below =>
        if top = dotdot then normalNames rooted (dotdot :: stack) rest
        else normalNames rooted below rest
    else normalNames rooted (name :: stack) rest

/-- `path::lexically_normal`. -/
def lexicallyNormal (p : Path) : Path :=
  let names := normalNames p.rooted [] p.names
  let slash := p.names.getLast? = some [] ∨ p.names.getLast? = some dot ∨
    p.names.getLast? = some dotdot
  if p.isEmpty then p
  else if names = [] then { p with names := if p.rooted then [] else [dot] }
  else if slash ∧ names.getLast? ≠ some dotdot then { p with names := names ++ [[]] }
  else { p with names }

/-- `std::mismatch`: what is left of both behind what they have in common. -/
def mismatch : List Name → List Name → List Name × List Name
  | a :: as, b :: bs => if a = b then mismatch as bs else (a :: as, b :: bs)
  | as, bs => (as, bs)

/-- `path::lexically_relative`. -/
def lexicallyRelative (p base : Path) : Path :=
  if p.rooted ≠ base.rooted then ⟨false, []⟩
  else
    let (a, b) := mismatch p.names base.names
    let down := b.countP fun name => name != [] && name != dot && name != dotdot
    let up := b.count dotdot
    if a = [] ∧ b = [] then ⟨false, [dot]⟩
    else if down < up then ⟨false, []⟩
    else if down = up ∧ (a = [] ∨ a.head? = some []) then ⟨false, [dot]⟩
    else ⟨false, List.replicate (down - up) dotdot ++ a⟩

theorem mismatch_split (as bs : List Name) : ∃ common,
    as = common ++ (mismatch as bs).1 ∧ bs = common ++ (mismatch as bs).2 := by
  fun_induction mismatch as bs with
  | case1 as b bs ih =>
    obtain ⟨common, has, hbs⟩ := ih
    refine ⟨b :: common, ?_, ?_⟩
    · rw [List.cons_append, ← has]
    · rw [List.cons_append, ← hbs]
  | case2 a as b bs hne => exact ⟨[], rfl, rfl⟩
  | case3 as bs => exact ⟨[], rfl, rfl⟩

/-- A name that a directory can hold. -/
def ValidName (name : Name) : Prop :=
  name ≠ [] ∧ name ≠ dot ∧ name ≠ dotdot ∧ 47 ∉ name ∧ 0 ∉ name

instance (name : Name) : Decidable (ValidName name) := by
  unfold ValidName
  infer_instance

/-- Where the way from one path to another goes up nowhere, it leads inside. -/
theorem lexicallyRelative_inside {l base : List Name} (hbase : ∀ name ∈ base, ValidName name)
    (h : dotdot ∉ (lexicallyRelative ⟨true, l⟩ ⟨true, base⟩).names) : base <+: l := by
  obtain ⟨common, hl, hb⟩ := mismatch_split l base
  have hrest : ∀ name ∈ (mismatch l base).2, ValidName name := by
    intro name hname
    apply hbase
    rw [hb]
    exact List.mem_append_right _ hname
  have hup : (mismatch l base).2.count dotdot = 0 := by
    rw [List.count_eq_zero]
    exact fun hmem => (hrest dotdot hmem).2.2.1 rfl
  have hdown : ((mismatch l base).2.countP fun name => name != [] && name != dot && name != dotdot) =
      (mismatch l base).2.length := by
    rw [List.countP_eq_length]
    intro name hname
    obtain ⟨hnil, hdot, hdotdot, -⟩ := hrest name hname
    simp [hnil, hdot, hdotdot]
  have hnil : (mismatch l base).2 = [] := by
    by_contra hne
    have hpos : 0 < (mismatch l base).2.length := List.length_pos_iff.mpr hne
    apply h
    simp only [lexicallyRelative, hup, hdown]
    rw [if_neg (by simp), if_neg (fun hboth => hne hboth.2), if_neg (by omega),
      if_neg (by omega)]
    exact List.mem_append_left _ (List.mem_replicate.mpr ⟨by omega, rfl⟩)
  rw [hnil, List.append_nil] at hb
  rw [hb]
  exact ⟨_, hl.symm⟩

end Path
end Aevrix.Filesystem
