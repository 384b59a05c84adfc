import Mathlib.Data.List.Nodup
import Mathlib.Data.List.Perm.Basic
import Mathlib.Tactic.Common

/-!
# Things in custody

A keeper holds things. In a step it takes some in and gives some out; what it held and took is
what it gave and holds then (`Transfers`). Over a run of an honest keeper nothing is lost and nothing
is given out twice (`Honest.moves_run`, `Honest.once`).
-/

namespace Custody
variable {α : Type*}

/-- From `held` to `held'`: `taken` comes in, `given` goes out. -/
def Transfers (held taken given held' : List α) : Prop := (held ++ taken).Perm (given ++ held')

namespace Transfers
variable {held taken given held' taken' given' held'' : List α}

theorem refl (held : List α) : Transfers held [] [] held := by
  rw [Transfers, List.append_nil]
  exact List.Perm.refl _

theorem trans (h : Transfers held taken given held') (h' : Transfers held' taken' given' held'') :
    Transfers held (taken ++ taken') (given ++ given') held'' := by
  have hfirst := h.append_right taken'
  have hsecond := List.Perm.append_left given h'
  simp only [Transfers, List.append_assoc] at hfirst hsecond ⊢
  exact hfirst.trans hsecond

/-- What goes out and comes in again has not moved. -/
theorem cancel {back back' : List α} (h : Transfers held (taken ++ back) (given ++ back') held')
    (hback : back.Perm back') : Transfers held taken given held' := by
  have hout : (given ++ back' ++ held').Perm (given ++ held' ++ back') := by
    rw [List.append_assoc, List.append_assoc]
    exact List.Perm.append_left _ List.perm_append_comm
  have hin : (held ++ taken ++ back).Perm (given ++ held' ++ back') := by
    rw [List.append_assoc]
    exact List.Perm.trans h hout
  exact (List.perm_append_right_iff back').mp ((List.Perm.append_left _ hback.symm).trans hin)

/-- What is in custody once is given out once, and is gone then. -/
theorem nodup (h : Transfers held taken given held') (hnodup : (held ++ taken).Nodup) :
    given.Nodup ∧ held'.Nodup ∧ ∀ a ∈ given, a ∉ held' := by
  have hout := List.nodup_append.mp (h.nodup_iff.mp hnodup)
  refine ⟨hout.1, hout.2.1, fun a hgiven hheld => ?_⟩
  exact hout.2.2 a hgiven a hheld rfl

theorem mem_given (h : Transfers held taken given held') {a : α} (ha : a ∈ given) :
    a ∈ held ∨ a ∈ taken :=
  List.mem_append.mp (h.mem_iff.mpr (List.mem_append_left _ ha))

end Transfers

/-- A system that keeps things: its steps, and what each of them takes and gives. -/
structure Keeper (σ ι α : Type*) where
  step : σ → ι → σ
  held : σ → List α
  taken : σ → ι → List α
  given : σ → ι → List α

namespace Keeper
variable {σ ι : Type*} (K : Keeper σ ι α)

def run (s : σ) (steps : List ι) : σ := steps.foldl K.step s

def takenIn (s : σ) : List ι → List α
  | [] => []
  | i :: steps => K.taken s i ++ takenIn (K.step s i) steps

def givenIn (s : σ) : List ι → List α
  | [] => []
  | i :: steps => K.given s i ++ givenIn (K.step s i) steps

/-- Each step of the run is allowed where it is taken. -/
def AllowedRun (Allowed : σ → ι → Prop) (s : σ) : List ι → Prop
  | [] => True
  | i :: steps => Allowed s i ∧ AllowedRun Allowed (K.step s i) steps

/-- The allowed steps keep `Inv`, move things, and take in nothing that is held. -/
structure Honest (Inv : σ → Prop) (Allowed : σ → ι → Prop) : Prop where
  step : ∀ s i, Inv s → Allowed s i → Inv (K.step s i)
  moves : ∀ s i, Inv s → Allowed s i →
    Transfers (K.held s) (K.taken s i) (K.given s i) (K.held (K.step s i))
  fresh : ∀ s i, Inv s → Allowed s i → (K.held s).Nodup → (K.held s ++ K.taken s i).Nodup

variable {K} {Inv : σ → Prop} {Allowed : σ → ι → Prop} {s : σ}

namespace Honest

theorem inv_run (hK : K.Honest Inv Allowed) {steps : List ι} (hs : Inv s)
    (hsteps : K.AllowedRun Allowed s steps) : Inv (K.run s steps) := by
  induction steps generalizing s with
  | nil => exact hs
  | cons i steps ih => exact ih (hK.step s i hs hsteps.1) hsteps.2

/-- Whatever was held or came in is given out or held. -/
theorem moves_run (hK : K.Honest Inv Allowed) {steps : List ι} (hs : Inv s)
    (hsteps : K.AllowedRun Allowed s steps) :
    Transfers (K.held s) (K.takenIn s steps) (K.givenIn s steps) (K.held (K.run s steps)) := by
  induction steps generalizing s with
  | nil => exact Transfers.refl _
  | cons i steps ih =>
    exact (hK.moves s i hs hsteps.1).trans (ih (hK.step s i hs hsteps.1) hsteps.2)

theorem nodup_run (hK : K.Honest Inv Allowed) {steps : List ι} (hs : Inv s)
    (hsteps : K.AllowedRun Allowed s steps) (hnodup : (K.held s).Nodup) :
    (K.held (K.run s steps)).Nodup := by
  induction steps generalizing s with
  | nil => exact hnodup
  | cons i steps ih =>
    have hfresh := hK.fresh s i hs hsteps.1 hnodup
    have hheld := ((hK.moves s i hs hsteps.1).nodup hfresh).2.1
    exact ih (hK.step s i hs hsteps.1) hsteps.2 hheld

/-- After any run, a step gives out nothing twice, nothing it keeps, and only what it held or
took. -/
theorem once (hK : K.Honest Inv Allowed) {steps : List ι} (hs : Inv s)
    (hsteps : K.AllowedRun Allowed s steps) (hnodup : (K.held s).Nodup) {i : ι}
    (hi : Allowed (K.run s steps) i) :
    let s' := K.run s steps
    (K.given s' i).Nodup ∧
    ∀ a ∈ K.given s' i, (a ∈ K.held s' ∨ a ∈ K.taken s' i) ∧ a ∉ K.held (K.step s' i) := by
  intro s'
  have hinv : Inv s' := hK.inv_run hs hsteps
  have hmoves := hK.moves s' i hinv hi
  have hfresh := hK.fresh s' i hinv hi (hK.nodup_run hs hsteps hnodup)
  obtain ⟨hgiven, -, hgone⟩ := hmoves.nodup hfresh
  exact ⟨hgiven, fun a ha => ⟨hmoves.mem_given ha, hgone a ha⟩⟩

end Honest
end Keeper
end Custody
