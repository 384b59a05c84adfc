import Aevrix.Filesystem.Path

/-!
# A tree of directories, files and symbolic links

`Tree` is a file system that does not change, and `walk` the way the kernel resolves a path in
it. `status`, `canonical`, `weaklyCanonical` and `relative` are the functions of
`std::filesystem` over it; `none` is the exception that they throw.

What a path resolves to is a location without links, and resolves to itself
(`status_location`); so the canonical forms of a path that exists all name the file that the
path reaches (`weaklyCanonical_found`).
-/

namespace Aevrix.Filesystem
open Path

inductive Node where
  | directory
  | regular (content : Bytes)
  | symlink (target : Bytes)
  | other
  deriving DecidableEq

/-- Every entry is in a directory, under a name that a directory can hold. -/
structure Tree where
  entries : List (List Name × Node)
  cwd : List Name
  maxLinks : ℕ
  placed : ∀ e ∈ entries, e.1 ≠ [] ∧
    (e.1.dropLast = [] ∨ entries.lookup e.1.dropLast = some .directory) ∧
    ValidName (e.1.getLast?.getD [])

/-- The type that `status` finds, with the location of the file. -/
inductive Status where
  | found (location : List Name)
  | notFound
  | failed
  deriving DecidableEq

/-- The names that a system call sees: the string ends at its first zero byte, and an empty
last name means the directory itself. -/
def cString : List Name → List Name
  | [] => []
  | name :: rest =>
    if 0 ∈ name then
      [if name.takeWhile (· != 0) = [] then dot else name.takeWhile (· != 0)]
    else (if name = [] then dot else name) :: cString rest

namespace Tree

/-- What is at a location; the root directory is always there. -/
def node (t : Tree) (l : List Name) : Option Node :=
  if l = [] then some .directory else t.entries.lookup l

/-- One name after the other, as far as the next symbolic link, which `follow` takes. -/
def walkNames (t : Tree) (follow : List Name → List Name → Status) :
    List Name → List Name → Status
  | l, [] => .found l
  | l, name :: rest =>
    if name = dot then walkNames t follow l rest
    else if name = dotdot then walkNames t follow l.dropLast rest
    else match t.node (l ++ [name]) with
      | none => .notFound
      | some .directory => walkNames t follow (l ++ [name]) rest
      | some (.symlink target) =>
        follow (if (parse target).rooted then [] else l) (cString (parse target).names ++ rest)
      | some (.regular _) | some .other => if rest = [] then .found (l ++ [name]) else .notFound

/-- Path resolution from a directory, with so many links at most. -/
def walk (t : Tree) : ℕ → List Name → List Name → Status
  | 0 => t.walkNames fun _ _ => .failed
  | links + 1 => t.walkNames (walk t links)

def status (t : Tree) (p : Path) : Status :=
  if p.isEmpty then .notFound
  else t.walk t.maxLinks (if p.rooted then [] else t.cwd) (cString p.names)

/-- `std::filesystem::absolute`. -/
def absolute (t : Tree) (p : Path) : Option Path :=
  if p.rooted then some p
  else if p.isEmpty then none
  else some ((⟨true, t.cwd⟩ : Path).append p)

/-- `std::filesystem::canonical`. -/
def canonical (t : Tree) (p : Path) : Option Path := match t.status p with
  | .found l => some ⟨true, l⟩
  | _ => none

/-- The leading elements that exist, and the others. -/
def leading (t : Tree) (rooted : Bool) : List Name → List Name → Option (List Name × List Name)
  | done, [] => some (done, [])
  | done, name :: rest => match t.status ⟨rooted, done ++ [name]⟩ with
    | .found _ => leading t rooted (done ++ [name]) rest
    | .notFound => some (done, name :: rest)
    | .failed => none

/-- `std::filesystem::weakly_canonical`. -/
def weaklyCanonical (t : Tree) (p : Path) : Option Path :=
  match t.leading p.rooted [] p.names with
  | none => none
  | some (done, rest) =>
    if p.rooted = false ∧ done = [] then some p.lexicallyNormal
    else match t.canonical ⟨p.rooted, done⟩ with
      | none => none
      | some c => some (if rest = [] then c else (c.append ⟨false, rest⟩).lexicallyNormal)

/-- `std::filesystem::relative`. -/
def relative (t : Tree) (p base : Path) : Option Path :=
  match t.weaklyCanonical p, t.weaklyCanonical base with
  | some p, some base => some (p.lexicallyRelative base)
  | _, _ => none

/-! ### Locations -/

/-- Something is there, and it is no link. -/
def IsLocation (t : Tree) (l : List Name) : Prop :=
  ∃ n, t.node l = some n ∧ ∀ target, n ≠ .symlink target

section location
variable {t : Tree} {l : List Name}

theorem node_placed {name : Name} (h : (t.node (l ++ [name])).isSome) :
    t.node l = some .directory ∧ ValidName name := by
  obtain ⟨n, hn⟩ := Option.isSome_iff_exists.mp h
  rw [node, if_neg (by simp)] at hn
  have hmem : (l ++ [name], n) ∈ t.entries := by
    generalize t.entries = entries at hn
    induction entries with
    | nil => cases hn
    | cons e rest ih =>
      rw [List.lookup_cons] at hn
      split at hn
      · rename_i hkey
        rw [eq_of_beq hkey, ← Option.some.inj hn]
        exact List.mem_cons_self
      · exact List.mem_cons_of_mem _ (ih hn)
  obtain ⟨-, hparent, hname⟩ := t.placed _ hmem
  simp only [List.dropLast_concat, List.getLast?_concat, Option.getD_some] at hparent hname
  refine ⟨?_, hname⟩
  rw [node]
  split
  · rfl
  · rename_i hne
    exact hparent.resolve_left hne

theorem isLocation_directory (h : t.node l = some .directory) : t.IsLocation l :=
  ⟨_, h, by simp⟩

theorem node_above {rest : List Name} (hrest : rest ≠ []) (h : (t.node (l ++ rest)).isSome) :
    t.node l = some .directory := by
  induction rest using List.reverseRecOn with
  | nil => exact absurd rfl hrest
  | append_singleton rest name ih =>
    rw [← List.append_assoc] at h
    have hdir := (node_placed h).1
    by_cases hnil : rest = []
    · rw [hnil, List.append_nil] at hdir
      exact hdir
    · exact ih hnil (by rw [hdir]; rfl)

theorem names_valid (h : (t.node l).isSome) : ∀ name ∈ l, ValidName name := by
  induction l using List.reverseRecOn with
  | nil => simp
  | append_singleton l last ih =>
    obtain ⟨hdir, hlast⟩ := node_placed h
    intro name hname
    rcases List.mem_append.mp hname with hname | hname
    · exact ih (by rw [hdir]; rfl) name hname
    · rw [List.mem_singleton.mp hname]
      exact hlast

theorem cString_valid (h : ∀ name ∈ l, ValidName name) : cString l = l := by
  induction l with
  | nil => rfl
  | cons name rest ih =>
    obtain ⟨hnil, -, -, -, hzero⟩ := h name List.mem_cons_self
    rw [cString, if_neg hzero, if_neg hnil, ih fun n hn => h n (List.mem_cons_of_mem _ hn)]

/-! ### Resolution -/

variable {follow : List Name → List Name → Status} {l' steps : List Name}

theorem walkNames_location
    (hfollow : ∀ dir rest, t.node dir = some .directory → follow dir rest = .found l' →
      t.IsLocation l')
    (hdir : t.node l = some .directory) (h : t.walkNames follow l steps = .found l') :
    t.IsLocation l' := by
  induction steps generalizing l with
  | nil =>
    rw [walkNames, Status.found.injEq] at h
    rw [← h]
    exact isLocation_directory hdir
  | cons name rest ih =>
    rw [walkNames] at h
    split at h
    · exact ih hdir h
    split at h
    · refine ih ?_ h
      rcases List.eq_nil_or_concat l with rfl | ⟨above, last, rfl⟩
      · exact hdir
      · rw [List.concat_eq_append] at hdir ⊢
        rw [List.dropLast_concat]
        exact (node_placed (by rw [hdir]; rfl)).1
    split at h
    · cases h
    · rename_i hnode
      exact ih hnode h
    · refine hfollow _ _ ?_ h
      split
      · rfl
      · exact hdir
    all_goals
      rename_i hnode
      split at h
      · rw [Status.found.injEq] at h
        rw [← h]
        exact ⟨_, hnode, by simp⟩
      · cases h

theorem walk_location {links : ℕ} (hdir : t.node l = some .directory)
    (h : t.walk links l steps = .found l') : t.IsLocation l' := by
  induction links generalizing l steps with
  | zero => exact walkNames_location (fun _ _ _ hfound => by cases hfound) hdir h
  | succ links ih => exact walkNames_location (fun _ _ hdir' hfound => ih hdir' hfound) hdir h

theorem walkNames_self (h : t.IsLocation (l ++ steps)) :
    t.walkNames follow l steps = .found (l ++ steps) := by
  obtain ⟨n, hn, hlink⟩ := h
  induction steps generalizing l with
  | nil => rw [walkNames, List.append_nil]
  | cons name rest ih =>
    have hsome : (t.node (l ++ name :: rest)).isSome := by rw [hn]; rfl
    obtain ⟨-, hdot, hdotdot, -⟩ := names_valid hsome name (by simp)
    have hassoc : l ++ name :: rest = l ++ [name] ++ rest := by simp
    rw [hassoc] at hn hsome
    rw [walkNames, if_neg hdot, if_neg hdotdot, hassoc]
    by_cases hrest : rest = []
    · rw [hrest, List.append_nil] at hn ⊢
      rw [hn]
      cases n with
      | directory => rw [walkNames]
      | regular content => rfl
      | symlink target => exact absurd rfl (hlink target)
      | other => rfl
    · rw [node_above hrest hsome]
      exact ih hn

theorem walk_self {links : ℕ} (h : t.IsLocation l) : t.walk links [] l = .found l := by
  cases links with
  | zero => exact walkNames_self h
  | succ links => exact walkNames_self h

theorem walkNames_append {more : List Name}
    (hfollow : ∀ dir rest, follow dir (rest ++ more) = .found l' →
      ∃ between, follow dir rest = .found between)
    (h : t.walkNames follow l (steps ++ more) = .found l') :
    ∃ between, t.walkNames follow l steps = .found between := by
  induction steps generalizing l with
  | nil => exact ⟨l, rfl⟩
  | cons name rest ih =>
    rw [List.cons_append, walkNames] at h
    rw [walkNames]
    split
    · rename_i hdot
      rw [if_pos hdot] at h
      exact ih h
    rename_i hdot
    rw [if_neg hdot] at h
    split
    · rename_i hdotdot
      rw [if_pos hdotdot] at h
      exact ih h
    rename_i hdotdot
    rw [if_neg hdotdot] at h
    cases hnode : t.node (l ++ [name]) with
    | none =>
      rw [hnode] at h
      cases h
    | some n =>
      rw [hnode] at h
      cases n with
      | directory => exact ih h
      | symlink target =>
        dsimp only at h
        rw [← List.append_assoc] at h
        exact hfollow _ _ h
      | regular content =>
        dsimp only at h ⊢
        split at h
        · rename_i hnil
          rw [if_pos (List.append_eq_nil_iff.mp hnil).1]
          exact ⟨_, rfl⟩
        · cases h
      | other =>
        dsimp only at h ⊢
        split at h
        · rename_i hnil
          rw [if_pos (List.append_eq_nil_iff.mp hnil).1]
          exact ⟨_, rfl⟩
        · cases h

theorem walk_append {links : ℕ} {more : List Name}
    (h : t.walk links l (steps ++ more) = .found l') :
    ∃ between, t.walk links l steps = .found between := by
  induction links generalizing l steps with
  | zero => exact walkNames_append (fun _ _ hfound => by cases hfound) h
  | succ links ih => exact walkNames_append (fun _ _ hfound => ih hfound) h

/-! ### Canonical paths -/

theorem cString_append (front back : List Name) : ∃ more,
    cString (front ++ back) = cString front ++ more := by
  induction front with
  | nil => exact ⟨_, rfl⟩
  | cons name rest ih =>
    obtain ⟨more, hmore⟩ := ih
    rw [List.cons_append, cString, cString]
    split
    · exact ⟨[], (List.append_nil _).symm⟩
    · exact ⟨more, by rw [hmore, List.cons_append]⟩

theorem status_rooted (t : Tree) (names : List Name) :
    t.status ⟨true, names⟩ = t.walk t.maxLinks [] (cString names) := rfl

theorem found_location {names : List Name} (h : t.status ⟨true, names⟩ = .found l) :
    t.IsLocation l := walk_location rfl h

theorem status_location (h : t.IsLocation l) : t.status ⟨true, l⟩ = .found l := by
  obtain ⟨n, hn, -⟩ := id h
  rw [status_rooted, cString_valid (names_valid (by rw [hn]; rfl))]
  exact walk_self h

theorem leading_found {done rest : List Name} (h : t.status ⟨true, done ++ rest⟩ = .found l) :
    t.leading true done rest = some (done ++ rest, []) := by
  induction rest generalizing done with
  | nil => rw [leading, List.append_nil]
  | cons name rest ih =>
    have hassoc : done ++ name :: rest = done ++ [name] ++ rest := by simp
    rw [hassoc] at h ⊢
    obtain ⟨more, hmore⟩ := cString_append (done ++ [name]) rest
    rw [status_rooted, hmore] at h
    obtain ⟨between, hbetween⟩ := walk_append h
    rw [leading, status_rooted, hbetween]
    refine ih ?_
    rw [status_rooted, hmore]
    exact h

theorem weaklyCanonical_found {names : List Name} (h : t.status ⟨true, names⟩ = .found l) :
    t.weaklyCanonical ⟨true, names⟩ = some ⟨true, l⟩ := by
  have hleading : t.leading true [] names = some (names, []) := leading_found h
  simp only [weaklyCanonical, hleading, canonical, h, Bool.true_eq_false, false_and, if_false,
    if_true]

theorem relative_found {names base : List Name} {l₂ : List Name}
    (h : t.status ⟨true, names⟩ = .found l) (hbase : t.status ⟨true, base⟩ = .found l₂) :
    t.relative ⟨true, names⟩ ⟨true, base⟩ = some (lexicallyRelative ⟨true, l⟩ ⟨true, l₂⟩) := by
  rw [relative, weaklyCanonical_found h, weaklyCanonical_found hbase]

end location
end Tree
end Aevrix.Filesystem
