import Aevrix.Custody.Ledger
import Aevrix.Keyed.Pairs
import Mathlib.Data.Int.Notation

/-!
# The owner of a descriptor (`unique_fd.h`)

A `UniqueFd` is the number it owns; a negative one is none. Its operations return what they pass
to `close`. `Operation` is what a program does with its `UniqueFd` objects: whatever it is, each
descriptor they are given is closed or released once (`owned_once`).
-/

namespace Aevrix.Descriptors
open Custody Keyed

structure UniqueFd where
  fd : ℤ := -1
  deriving DecidableEq

namespace UniqueFd

/-- `is_valid` (`unique_fd.h:153-155`). -/
def isValid (u : UniqueFd) : Bool := decide (0 ≤ u.fd)

/-- `close` (`unique_fd.h:221-226`), with the descriptors that close. -/
def close (u : UniqueFd) : UniqueFd × List ℤ :=
  if 0 ≤ u.fd then ({ fd := -1 }, [u.fd]) else (u, [])

/-- `release` (`unique_fd.h:182-186`). -/
def release (u : UniqueFd) : ℤ × UniqueFd := (u.fd, { fd := -1 })

/-- `reset` (`unique_fd.h:197-202`). -/
def reset (u : UniqueFd) (fd : ℤ) : UniqueFd × List ℤ :=
  if u.fd ≠ fd then ({ fd }, u.close.2) else (u, [])

/-- The move constructor (`unique_fd.h:101-103`): the new object, and the source. -/
def moveConstruct (other : UniqueFd) : UniqueFd × UniqueFd := ({ fd := other.fd }, { fd := -1 })

/-- The move assignment from another object (`unique_fd.h:115-122`). -/
def moveAssign (this other : UniqueFd) : UniqueFd × UniqueFd × List ℤ :=
  ({ fd := other.fd }, { fd := -1 }, this.close.2)

/-- `swap` (`unique_fd.h:211-213`). -/
def swap (this other : UniqueFd) : UniqueFd × UniqueFd := (other, this)

/-- The descriptor an object owns. -/
def owned (u : UniqueFd) : List ℤ := if 0 ≤ u.fd then [u.fd] else []

theorem closed_close (u : UniqueFd) : u.close.2 = u.owned := by
  unfold close owned
  split <;> rfl

end UniqueFd

/-! ### A program with its objects -/

inductive Operation where
  | construct (name : ℕ) (fd : ℤ)
  | moveConstruct (name other : ℕ)
  | moveAssign (name other : ℕ)
  | release (name : ℕ)
  | reset (name : ℕ) (fd : ℤ)
  | swap (name other : ℕ)
  | destroy (name : ℕ)

/-- The objects that are alive, by name. -/
abbrev Objects := List (ℕ × UniqueFd)

namespace Objects

/-- The objects after an operation; one that names an object which is not there is none. -/
def step (s : Objects) : Operation → Objects
  | .construct name fd => s ++ [(name, { fd })]
  | .moveConstruct name other => match s.lookup other with
    | none => s
    | some u => put s other u.moveConstruct.2 ++ [(name, u.moveConstruct.1)]
  | .moveAssign name other => match s.lookup name, s.lookup other with
    | some this, some u =>
      if name = other then s
      else put (put s name (this.moveAssign u).1) other (this.moveAssign u).2.1
    | _, _ => s
  | .release name => match s.lookup name with
    | none => s
    | some u => put s name u.release.2
  | .reset name fd => match s.lookup name with
    | none => s
    | some u => put s name (u.reset fd).1
  | .swap name other => match s.lookup name, s.lookup other with
    | some this, some u => put (put s name (this.swap u).1) other (this.swap u).2
    | _, _ => s
  | .destroy name => erase s name

/-- The descriptors that an operation passes to `close`. -/
def closes (s : Objects) : Operation → List ℤ
  | .moveAssign name other => match s.lookup name, s.lookup other with
    | some this, some u => if name = other then [] else (this.moveAssign u).2.2
    | _, _ => []
  | .reset name fd => match s.lookup name with
    | none => []
    | some u => (u.reset fd).2
  | .destroy name => match s.lookup name with
    | none => []
    | some u => u.close.2
  | _ => []

/-- The descriptor that `release` hands to the caller. -/
def releases (s : Objects) : Operation → List ℤ
  | .release name => match s.lookup name with
    | none => []
    | some u => UniqueFd.owned { fd := u.release.1 }
  | _ => []

/-- The descriptor that an operation takes over from the caller. -/
def takes (s : Objects) : Operation → List ℤ
  | .construct _ fd => UniqueFd.owned { fd }
  | .reset name fd => match s.lookup name with
    | none => []
    | some u => if u.fd ≠ fd then UniqueFd.owned { fd } else []
  | _ => []

def descriptors (s : Objects) : List ℤ := s.flatMap fun e => e.2.owned

/-- The objects as keepers of descriptors. -/
def keeper : Keeper Objects Operation ℤ where
  step := step
  held := descriptors
  taken := takes
  given s operation := closes s operation ++ releases s operation

/-- Names of objects are distinct. -/
def Named (s : Objects) : Prop := (keys s).Nodup

/-- A new object has a new name, and what the caller hands over is not owned already. -/
structure Allowed (s : Objects) (operation : Operation) : Prop where
  fresh : ∀ fd ∈ takes s operation, fd ∉ descriptors s
  named : ∀ name, (∃ fd, operation = .construct name fd) ∨
    (∃ other, operation = .moveConstruct name other) → name ∉ keys s

/-! ### What moves -/

section moves
variable {s : Objects} {name other : ℕ} {u v : UniqueFd}

theorem descriptors_erase (hs : Named s) (hlookup : s.lookup name = some u) :
    (descriptors s).Perm (u.owned ++ descriptors (erase s name)) :=
  (perm_cons_erase hs hlookup).flatMap_right _

theorem lookup_put (hs : Named s) (hlookup : s.lookup name = some u) :
    (put s name v).lookup name = some v := by
  refine lookup_of_mem (by rw [keys_put]; exact hs) (List.mem_map.mpr ?_)
  exact ⟨_, mem_of_lookup hlookup, if_pos rfl⟩

theorem erase_put (s : Objects) (name : ℕ) (v : UniqueFd) :
    erase (put s name v) name = erase s name := by
  simp only [erase, put, List.filter_map]
  have hsame : ((fun x : ℕ × UniqueFd => x.1 != name) ∘
      fun x => if x.1 = name then (name, v) else x) = fun x => x.1 != name := by
    funext x
    simp only [Function.comp_apply]
    split
    · rename_i hname
      rw [hname]
    · rfl
  rw [hsame]
  refine (List.map_congr_left fun x hx => ?_).trans (List.map_id _)
  exact if_neg (bne_iff_ne.mp (List.mem_filter.mp hx).2)

/-- One object has another descriptor. -/
theorem moves_put (hs : Named s) (hlookup : s.lookup name = some u) (v : UniqueFd) :
    Transfers (descriptors s) v.owned u.owned (descriptors (put s name v)) := by
  have hbefore := descriptors_erase hs hlookup
  have hafter := descriptors_erase (by rw [Named, keys_put]; exact hs)
    (lookup_put (v := v) hs hlookup)
  rw [erase_put] at hafter
  refine (hbefore.append_right _).trans ?_
  rw [List.append_assoc]
  exact List.Perm.append_left _ (List.perm_append_comm.trans hafter.symm)

theorem moves_concat (s : Objects) (name : ℕ) (v : UniqueFd) :
    Transfers (descriptors s) v.owned [] (descriptors (s ++ [(name, v)])) := by
  rw [Transfers, List.nil_append, descriptors, descriptors, List.flatMap_append]
  simp

/-- Two objects change, and what goes in and out of both stays. -/
theorem moves_put_put (hs : Named s) (hname : s.lookup name = some u)
    (hother : s.lookup other = some v) (hne : name ≠ other) (u' v' : UniqueFd) :
    Transfers (descriptors s) (u'.owned ++ v'.owned) (u.owned ++ v.owned)
      (descriptors (put (put s name u') other v')) := by
  have hsecond : (put s name u').lookup other = some v := by
    refine lookup_of_mem (by rw [keys_put]; exact hs) ?_
    exact mem_put_of_ne (mem_of_lookup hother) (Ne.symm hne)
  exact (moves_put hs hname u').trans (moves_put (by rw [Named, keys_put]; exact hs) hsecond v')

theorem named_step (hs : Named s) {operation : Operation} (hallowed : Allowed s operation) :
    Named (step s operation) := by
  have hput : ∀ name v, Named (put s name v) := fun name v => by
    rw [Named, keys_put]
    exact hs
  have hput2 : ∀ name v name' v', Named (put (put s name v) name' v') := fun name v name' v' => by
    rw [Named, keys_put]
    exact hput name v
  cases operation with
  | construct name fd => exact nodup_concat hs (hallowed.named name (Or.inl ⟨fd, rfl⟩)) _
  | moveConstruct name other =>
    simp only [step]
    split
    · exact hs
    · refine nodup_concat (hput other _) ?_ _
      rw [keys_put]
      exact hallowed.named name (Or.inr ⟨other, rfl⟩)
  | moveAssign name other =>
    simp only [step]
    split
    · split
      · exact hs
      · exact hput2 _ _ _ _
    · exact hs
  | release name =>
    simp only [step]
    split
    · exact hs
    · exact hput _ _
  | reset name fd =>
    simp only [step]
    split
    · exact hs
    · exact hput _ _
  | swap name other =>
    simp only [step]
    split
    · exact hput2 _ _ _ _
    · exact hs
  | destroy name => exact nodup_erase hs

theorem moves_step (hs : Named s) (operation : Operation) :
    Transfers (descriptors s) (takes s operation) (closes s operation ++ releases s operation)
      (descriptors (step s operation)) := by
  have hnothing := Transfers.refl (descriptors s)
  cases operation with
  | construct name fd => exact moves_concat s name _
  | moveConstruct name other =>
    cases hother : s.lookup other with
    | none =>
      simp only [step, hother]
      exact hnothing
    | some u =>
      simp only [step, hother]
      have hmoved : Transfers (descriptors s) ([] ++ u.owned) ([] ++ u.owned)
          (descriptors (put s other u.moveConstruct.2 ++ [(name, u.moveConstruct.1)])) := by
        rw [List.nil_append]
        have hboth := (moves_put hs hother u.moveConstruct.2).trans
          (moves_concat _ name u.moveConstruct.1)
        rwa [List.append_nil] at hboth
      exact hmoved.cancel (List.Perm.refl _)
  | moveAssign name other =>
    cases hname : s.lookup name with
    | none =>
      simp only [step, closes, hname]
      exact hnothing
    | some this =>
      cases hother : s.lookup other with
      | none =>
        simp only [step, closes, hname, hother]
        exact hnothing
      | some u =>
        simp only [step, closes, hname, hother]
        split
        · exact hnothing
        · rename_i hne
          have hmoved : Transfers (descriptors s) ([] ++ u.owned) (this.owned ++ u.owned)
              (descriptors (put (put s name (this.moveAssign u).1) other (this.moveAssign u).2.1)) := by
            rw [List.nil_append]
            have hboth := moves_put_put hs hname hother hne (this.moveAssign u).1
              (this.moveAssign u).2.1
            rwa [show (this.moveAssign u).2.1.owned = [] from rfl, List.append_nil] at hboth
          rw [show (this.moveAssign u).2.2 = this.owned from this.closed_close]
          simp only [releases, List.append_nil]
          exact hmoved.cancel (List.Perm.refl _)
  | release name =>
    cases hname : s.lookup name with
    | none =>
      simp only [step, closes, releases, takes, hname]
      exact hnothing
    | some u =>
      simp only [step, closes, releases, takes, hname]
      exact moves_put hs hname u.release.2
  | reset name fd =>
    cases hname : s.lookup name with
    | none =>
      simp only [step, closes, releases, takes, hname]
      exact hnothing
    | some u =>
      simp only [step, closes, releases, takes, hname, UniqueFd.reset]
      split
      · rw [u.closed_close, List.append_nil]
        exact moves_put hs hname { fd }
      · have hmoved : Transfers (descriptors s) ([] ++ u.owned) ([] ++ u.owned)
            (descriptors (put s name u)) := moves_put hs hname u
        exact hmoved.cancel (List.Perm.refl _)
  | swap name other =>
    cases hname : s.lookup name with
    | none =>
      simp only [step, hname]
      exact hnothing
    | some this =>
      cases hother : s.lookup other with
      | none =>
        simp only [step, hname, hother]
        exact hnothing
      | some u =>
        simp only [step, hname, hother]
        have hmoved : Transfers (descriptors s) ([] ++ (u.owned ++ this.owned))
            ([] ++ (this.owned ++ u.owned)) (descriptors (put (put s name u) other this)) := by
          by_cases hsame : name = other
          · subst hsame
            obtain rfl : this = u := Option.some.inj (hname.symm.trans hother)
            have hagain := moves_put (by rw [Named, keys_put]; exact hs)
              (lookup_put (v := this) hs hname) this
            exact (moves_put hs hname this).trans hagain
          · exact moves_put_put hs hname hother hsame u this
        exact hmoved.cancel List.perm_append_comm
  | destroy name =>
    cases hname : s.lookup name with
    | none =>
      simp only [step, closes, hname]
      rw [erase_of_notMem (lookup_eq_none.mp hname)]
      exact hnothing
    | some u =>
      simp only [step, closes, releases, takes, hname, u.closed_close]
      rw [Transfers, List.append_nil, List.append_nil]
      exact descriptors_erase hs hname

theorem fresh_step (hnodup : (descriptors s).Nodup) {operation : Operation}
    (hallowed : Allowed s operation) : (descriptors s ++ takes s operation).Nodup := by
  have hsingle : ∀ u : UniqueFd, u.owned.Nodup := fun u => by
    unfold UniqueFd.owned
    split
    · exact List.nodup_singleton _
    · exact List.nodup_nil
  refine List.Nodup.append hnodup ?_ fun fd hheld htaken => hallowed.fresh fd htaken hheld
  cases operation with
  | construct name fd => exact hsingle { fd }
  | reset name fd =>
    simp only [takes]
    split
    · exact List.nodup_nil
    · split
      · exact hsingle { fd }
      · exact List.nodup_nil
  | moveConstruct name other => exact List.nodup_nil
  | moveAssign name other => exact List.nodup_nil
  | release name => exact List.nodup_nil
  | swap name other => exact List.nodup_nil
  | destroy name => exact List.nodup_nil

end moves

theorem keeper_honest : keeper.Honest Named Allowed where
  step _ _ hs hallowed := named_step hs hallowed
  moves _ operation hs _ := moves_step hs operation
  fresh _ _ _ hallowed hnodup := fresh_step hnodup hallowed

/-- Whatever a program does with its objects, in any order, provided a new object has a new name and
a descriptor handed over is not owned already (`Allowed`): the descriptors it handed to them are
those they closed or released and those they own; no two objects own the same one; an operation
closes or releases only what was owned or just handed over, once, and does not keep it; and when
no object is left, every descriptor has been closed or released. -/
theorem owned_once (operations : List Operation)
    (hallowed : keeper.AllowedRun Allowed [] operations) :
    let s := keeper.run [] operations
    (keeper.takenIn [] operations).Perm (keeper.givenIn [] operations ++ descriptors s) ∧
    (descriptors s).Nodup ∧
    (∀ operation, Allowed s operation → (closes s operation ++ releases s operation).Nodup ∧
      ∀ fd ∈ closes s operation ++ releases s operation,
        (fd ∈ descriptors s ∨ fd ∈ takes s operation) ∧ fd ∉ descriptors (step s operation)) ∧
    (s = [] → (keeper.takenIn [] operations).Perm (keeper.givenIn [] operations)) := by
  intro s
  have hnamed : Named [] := List.nodup_nil
  have hnone : (descriptors []).Nodup := List.nodup_nil
  have hmoves : (keeper.takenIn [] operations).Perm (keeper.givenIn [] operations ++ descriptors s) :=
    keeper_honest.moves_run hnamed hallowed
  refine ⟨hmoves, keeper_honest.nodup_run hnamed hallowed hnone, fun operation hoperation => ?_,
    fun hs => ?_⟩
  · exact keeper_honest.once hnamed hallowed hnone hoperation
  · rw [hs] at hmoves
    rwa [show descriptors [] = [] from rfl, List.append_nil] at hmoves

/-- A descriptor is moved, the target owned one already, and both objects go. -/
def movedOver : List Operation :=
  [.construct 0 3, .construct 1 4, .moveAssign 0 1, .moveAssign 0 0, .destroy 1, .destroy 0]

theorem owned_once_moved : keeper.givenIn [] movedOver = [3, 4] ∧
    (keeper.takenIn [] movedOver).Perm (keeper.givenIn [] movedOver) := by
  have hallowed : keeper.AllowedRun Allowed [] movedOver := by
    have hquiet : ∀ (s : Objects) operation, takes s operation = [] →
        (∀ name, ¬((∃ fd, operation = .construct name fd) ∨
          ∃ other, operation = .moveConstruct name other)) → Allowed s operation := by
      intro s operation htakes hname
      refine ⟨fun fd hfd => ?_, fun name h => absurd h (hname name)⟩
      rw [htakes] at hfd
      cases hfd
    have hnew : ∀ (s : Objects) name fd, fd ∉ descriptors s → name ∉ keys s → 0 ≤ fd →
        Allowed s (.construct name fd) := by
      intro s name fd hfd hname hreal
      refine ⟨fun d hd => ?_, fun name' h => ?_⟩
      · simp only [takes, UniqueFd.owned, if_pos hreal, List.mem_singleton] at hd
        rwa [hd]
      · rcases h with ⟨fd', heq⟩ | ⟨other, heq⟩
        · cases heq
          exact hname
        · cases heq
    refine ⟨hnew _ 0 3 (by decide) (by decide) (by decide),
      hnew _ 1 4 (by decide) (by decide) (by decide), hquiet _ _ rfl (by simp), hquiet _ _ rfl (by simp),
      hquiet _ _ rfl (by simp), hquiet _ _ rfl (by simp), trivial⟩
  exact ⟨by decide, (owned_once movedOver hallowed).2.2.2 (by decide)⟩

end Objects
end Aevrix.Descriptors
