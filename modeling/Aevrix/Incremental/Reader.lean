import Aevrix.Incremental.Machine

/-!
# Resumable readers

A reader takes a value from the front of a buffer, asks for more symbols, or gives up. It
carries the proof that its verdict does not change when more symbols arrive
(`resumes_done`, `resumes_failed`), and so does every reader put together from others.
`Reader.machine` reads values one after the other and acts on each.
-/

namespace Incremental

inductive Outcome (ε α : Type*) where
  | needMore
  | failed (e : ε)
  | done (a : α)
  deriving DecidableEq

structure Reader (ε β α : Type*) where
  run : List β → Outcome ε (α × List β)
  /-- What is taken is a front of the buffer, and is taken the same way in front of anything. -/
  resumes_done : ∀ {u a r}, run u = .done (a, r) → ∃ w, u = w ++ r ∧ ∀ x, run (w ++ x) = .done (a, x)
  resumes_failed : ∀ {u e} (x : List β), run u = .failed e → run (u ++ x) = .failed e

namespace Reader
variable {ε β α γ : Type*}

def pure (a : α) : Reader ε β α where
  run u := .done (a, u)
  resumes_done h := by
    simp only [Outcome.done.injEq, Prod.mk.injEq] at h
    obtain ⟨rfl, rfl⟩ := h
    exact ⟨[], rfl, fun x => rfl⟩
  resumes_failed x h := by cases h

def fail (e : ε) : Reader ε β α where
  run _ := .failed e
  resumes_done h := by cases h
  resumes_failed x h := h

/-- The next `n` symbols. -/
def take (n : ℕ) : Reader ε β (List β) where
  run u := if u.length < n then .needMore else .done (u.take n, u.drop n)
  resumes_done {u a r} h := by
    split at h
    · cases h
    · simp only [Outcome.done.injEq, Prod.mk.injEq] at h
      obtain ⟨rfl, rfl⟩ := h
      have hlen : (u.take n).length = n := List.length_take_of_le (by omega)
      refine ⟨u.take n, (List.take_append_drop n u).symm, fun x => ?_⟩
      rw [if_neg (by rw [List.length_append]; omega), List.take_left' hlen, List.drop_left' hlen]
  resumes_failed x h := by
    split at h <;> cases h

def bind (f : Reader ε β α) (g : α → Reader ε β γ) : Reader ε β γ where
  run u := match f.run u with
    | .needMore => .needMore
    | .failed e => .failed e
    | .done (a, r) => (g a).run r
  resumes_done {u c r} h := by
    cases hf : f.run u with
    | needMore =>
      rw [hf] at h
      cases h
    | failed e =>
      rw [hf] at h
      cases h
    | done p =>
      rw [hf] at h
      obtain ⟨v, rfl, hv⟩ := f.resumes_done hf
      obtain ⟨w, hw, hrun⟩ := (g p.1).resumes_done h
      refine ⟨v ++ w, by rw [List.append_assoc, ← hw], fun x => ?_⟩
      rw [List.append_assoc, hv]
      exact hrun x
  resumes_failed {u e} x h := by
    cases hf : f.run u with
    | needMore =>
      rw [hf] at h
      cases h
    | failed e' =>
      rw [hf] at h
      rw [f.resumes_failed x hf]
      exact h
    | done p =>
      rw [hf] at h
      obtain ⟨v, rfl, hv⟩ := f.resumes_done hf
      rw [List.append_assoc, hv]
      exact (g p.1).resumes_failed x h

/-- Gives up unless the condition holds. -/
def require (c : Prop) [Decidable c] (e : ε) : Reader ε β Unit := if c then pure () else fail e

section run
variable {u r : List β}

@[simp] theorem run_pure (a : α) (u : List β) : (pure a : Reader ε β α).run u = .done (a, u) := rfl
@[simp] theorem run_fail (e : ε) (u : List β) : (fail e : Reader ε β α).run u = .failed e := rfl

theorem run_bind_done {f : Reader ε β α} {a : α} (h : f.run u = .done (a, r))
    (g : α → Reader ε β γ) : (f.bind g).run u = (g a).run r := by
  simp only [bind, h]

theorem run_bind_needMore {f : Reader ε β α} (h : f.run u = .needMore) (g : α → Reader ε β γ) :
    (f.bind g).run u = .needMore := by
  simp only [bind, h]

theorem run_bind_failed {f : Reader ε β α} {e : ε} (h : f.run u = .failed e)
    (g : α → Reader ε β γ) : (f.bind g).run u = .failed e := by
  simp only [bind, h]

theorem run_take {n : ℕ} {v : List β} (h : v.length = n) (x : List β) :
    (take n : Reader ε β (List β)).run (v ++ x) = .done (v, x) := by
  have hn : ¬(v ++ x).length < n := by
    rw [List.length_append]
    omega
  simp only [take, if_neg hn, List.take_left' h, List.drop_left' h]

theorem run_take_short {n : ℕ} (h : u.length < n) :
    (take n : Reader ε β (List β)).run u = .needMore := by
  simp only [take, if_pos h]

theorem of_take {n : ℕ} {v : List β} (h : (take n : Reader ε β (List β)).run u = .done (v, r)) :
    u = v ++ r ∧ v.length = n := by
  simp only [take] at h
  split at h
  · cases h
  · simp only [Outcome.done.injEq, Prod.mk.injEq] at h
    obtain ⟨rfl, rfl⟩ := h
    exact ⟨(List.take_append_drop n u).symm, List.length_take_of_le (by omega)⟩

theorem of_bind {f : Reader ε β α} {g : α → Reader ε β γ} {c : γ}
    (h : (f.bind g).run u = .done (c, r)) :
    ∃ a v, f.run u = .done (a, v) ∧ (g a).run v = .done (c, r) := by
  cases hf : f.run u with
  | needMore =>
    rw [run_bind_needMore hf] at h
    cases h
  | failed e =>
    rw [run_bind_failed hf] at h
    cases h
  | done p => exact ⟨p.1, p.2, rfl, by rwa [run_bind_done hf] at h⟩

theorem of_bind_needMore {f : Reader ε β α} {g : α → Reader ε β γ}
    (h : (f.bind g).run u = .needMore) :
    f.run u = .needMore ∨ ∃ a v, f.run u = .done (a, v) ∧ (g a).run v = .needMore := by
  cases hf : f.run u with
  | needMore => exact Or.inl rfl
  | failed e =>
    rw [run_bind_failed hf] at h
    cases h
  | done p => exact Or.inr ⟨p.1, p.2, rfl, by rwa [run_bind_done hf] at h⟩

theorem of_take_needMore {n : ℕ} (h : (take n : Reader ε β (List β)).run u = .needMore) :
    u.length < n := by
  simp only [take] at h
  split at h
  · rename_i hshort
    exact hshort
  · cases h

theorem require_not_needMore {c : Prop} [Decidable c] {e : ε} (u : List β) :
    (require c e : Reader ε β Unit).run u ≠ .needMore := by
  intro h
  unfold require at h
  split at h <;> cases h

theorem run_require {c : Prop} [Decidable c] (e : ε) (h : c) (u : List β) :
    (require c e : Reader ε β Unit).run u = .done ((), u) := by
  rw [require, if_pos h]
  rfl

theorem of_require {c : Prop} [Decidable c] {e : ε}
    (h : (require c e : Reader ε β Unit).run u = .done ((), r)) : c ∧ r = u := by
  unfold require at h
  split at h
  · rename_i hc
    rw [run_pure, Outcome.done.injEq, Prod.mk.injEq] at h
    exact ⟨hc, h.2.symm⟩
  · cases h

end run

theorem run_front {f : Reader ε β α} {v : List β} {a : α} (h : f.run v = .done (a, []))
    {u y : List β} (hv : u ++ y = v) (hy : y ≠ []) : f.run u = .needMore := by
  cases hu : f.run u with
  | needMore => rfl
  | failed e =>
    have hfail := f.resumes_failed y hu
    rw [hv, h] at hfail
    cases hfail
  | done p =>
    obtain ⟨w, hw, hrun⟩ := f.resumes_done hu
    have hmore := hrun (p.2 ++ y)
    rw [← List.append_assoc, ← hw, hv, h, Outcome.done.injEq, Prod.mk.injEq] at hmore
    exact (hy (List.append_eq_nil_iff.mp hmore.2.symm).2).elim

/-- What the reader gives up with satisfies `P`. -/
def FailsWith (f : Reader ε β α) (P : ε → Prop) : Prop := ∀ u e, f.run u = .failed e → P e

section FailsWith
variable {P : ε → Prop}

theorem failsWith_pure (a : α) : (pure a : Reader ε β α).FailsWith P := by
  intro u e h
  cases h

theorem failsWith_fail {e : ε} (he : P e) : (fail e : Reader ε β α).FailsWith P := by
  intro u e' h
  rw [run_fail, Outcome.failed.injEq] at h
  rwa [← h]

theorem failsWith_take (n : ℕ) : (take n : Reader ε β (List β)).FailsWith P := by
  intro u e h
  simp only [take] at h
  split at h <;> cases h

theorem failsWith_require {c : Prop} [Decidable c] {e : ε} (he : P e) :
    (require c e : Reader ε β Unit).FailsWith P := by
  unfold require
  split
  · exact failsWith_pure ()
  · exact failsWith_fail he

theorem failsWith_bind {f : Reader ε β α} {g : α → Reader ε β γ} (hf : f.FailsWith P)
    (hg : ∀ a, (g a).FailsWith P) : (f.bind g).FailsWith P := by
  intro u e h
  cases hr : f.run u with
  | needMore =>
    rw [run_bind_needMore hr] at h
    cases h
  | failed e' =>
    rw [run_bind_failed hr] at h
    rw [← Outcome.failed.inj h]
    exact hf u e' hr
  | done p =>
    rw [run_bind_done (a := p.1) (r := p.2) hr] at h
    exact hg p.1 p.2 e h

end FailsWith

/-! ### Reading one value after the other -/

/-- No value comes for free. -/
def Productive (f : Reader ε β α) : Prop := ∀ {u a r}, f.run u = .done (a, r) → r.length < u.length

theorem productive_take_bind {n : ℕ} (hn : 0 < n) (g : List β → Reader ε β α) :
    Productive ((take n).bind g) := by
  intro u a r h
  obtain ⟨v, w, hv, hg⟩ := of_bind h
  obtain ⟨rfl, hlen⟩ := of_take hv
  obtain ⟨x, rfl, -⟩ := (g v).resumes_done hg
  simp only [List.length_append]
  omega

variable {σ : Type*}

/-- Values are read while the state is live: `act` takes in a value, `halt` what the reader
gave up with. -/
def machine (f : Reader ε β α) (hf : f.Productive) (live : σ → Bool) (act : σ → α → σ)
    (halt : σ → ε → σ) (halts : ∀ s e, live (halt s e) = false) : Machine σ β where
  step s u := if live s then match f.run u with
      | .needMore => none
      | .failed e => some (halt s e, u)
      | .done (a, r) => some (act s a, r)
    else none
  fuel s u := u.length + if live s then 1 else 0
  descends {s u s' u'} h := by
    split at h
    · rename_i hl
      split at h
      · cases h
      · simp only [Option.some.injEq, Prod.mk.injEq] at h
        rw [← h.1, ← h.2, halts, hl]
        simp
      · rename_i a r hr
        simp only [Option.some.injEq, Prod.mk.injEq] at h
        have hlt := hf hr
        rw [← h.2, hl]
        split <;> simp <;> omega
    · cases h
  consumes {s u s' u'} h := by
    split at h
    · split at h
      · cases h
      · simp only [Option.some.injEq, Prod.mk.injEq] at h
        rw [← h.2]
      · rename_i a r hr
        simp only [Option.some.injEq, Prod.mk.injEq] at h
        obtain ⟨w, hw, -⟩ := f.resumes_done hr
        rw [← h.2, hw]
        exact List.suffix_append ..
    · cases h
  resumes {s u s' u'} x h := by
    split at h
    · rename_i hl
      rw [if_pos hl]
      split at h
      · cases h
      · rename_i e hr
        simp only [Option.some.injEq, Prod.mk.injEq] at h
        rw [f.resumes_failed x hr, ← h.1, ← h.2]
      · rename_i a r hr
        simp only [Option.some.injEq, Prod.mk.injEq] at h
        obtain ⟨w, rfl, hw⟩ := f.resumes_done hr
        rw [List.append_assoc, hw, ← h.1, ← h.2]
    · cases h

section machine
variable {f : Reader ε β α} {hf : f.Productive} {live : σ → Bool} {act : σ → α → σ}
  {halt : σ → ε → σ} {halts : ∀ s e, live (halt s e) = false} {s s' : σ} {u u' : List β}

theorem machine_step_done {a : α} {r : List β} (hl : live s = true) (h : f.run u = .done (a, r)) :
    (machine f hf live act halt halts).step s u = some (act s a, r) := by
  simp only [machine, hl, if_true, h]

theorem machine_step_failed {e : ε} (hl : live s = true) (h : f.run u = .failed e) :
    (machine f hf live act halt halts).step s u = some (halt s e, u) := by
  simp only [machine, hl, if_true, h]

theorem machine_step_needMore (h : f.run u = .needMore) :
    (machine f hf live act halt halts).step s u = none := by
  simp only [machine, h, ite_self]

theorem machine_step_dead (hl : live s = false) :
    (machine f hf live act halt halts).step s u = none := by
  simp only [machine, hl, Bool.false_eq_true, if_false]

theorem of_machine_step (h : (machine f hf live act halt halts).step s u = some (s', u')) :
    live s = true ∧ ((∃ a, f.run u = .done (a, u') ∧ s' = act s a) ∨
      ∃ e, f.run u = .failed e ∧ s' = halt s e ∧ u' = u) := by
  cases hl : live s with
  | false =>
    rw [machine_step_dead hl] at h
    cases h
  | true =>
    refine ⟨rfl, ?_⟩
    cases hr : f.run u with
    | needMore =>
      rw [machine_step_needMore hr] at h
      cases h
    | failed e =>
      rw [machine_step_failed hl hr, Option.some.injEq, Prod.mk.injEq] at h
      exact Or.inr ⟨e, rfl, h.1.symm, h.2.symm⟩
    | done p =>
      rw [machine_step_done (a := p.1) (r := p.2) hl hr, Option.some.injEq, Prod.mk.injEq] at h
      exact Or.inl ⟨p.1, by rw [← h.2], h.1.symm⟩

theorem of_machine_blocked (hl : live s = true)
    (h : (machine f hf live act halt halts).step s u = none) : f.run u = .needMore := by
  cases hr : f.run u with
  | needMore => rfl
  | failed e =>
    rw [machine_step_failed hl hr] at h
    cases h
  | done p =>
    rw [machine_step_done (a := p.1) (r := p.2) hl hr] at h
    cases h

/-- Unless the reader gave up, the drain needs nothing behind what it consumed. -/
theorem machine_drain_front (s : σ) (u : List β)
    (h : ∀ s' e, ((machine f hf live act halt halts).drain s u).1 ≠ halt s' e) :
    ∃ v, u = v ++ ((machine f hf live act halt halts).drain s u).2 ∧
      (machine f hf live act halt halts).drain s v =
        (machine f hf live act halt halts).drain
          ((machine f hf live act halt halts).drain s u).1 [] := by
  induction s, u using Machine.run_induction (M := machine f hf live act halt halts) with
  | blocked s u hb =>
    rw [Machine.drain_none hb]
    exact ⟨[], rfl, rfl⟩
  | progress s u s' u' hstep ih =>
    rw [Machine.drain_some hstep] at h ⊢
    obtain ⟨hl, ⟨a, hr, rfl⟩ | ⟨e, hr, rfl, rfl⟩⟩ := of_machine_step hstep
    · obtain ⟨w, hw, hdrain⟩ := ih h
      obtain ⟨v, rfl, hrun⟩ := f.resumes_done hr
      have hnext : (machine f hf live act halt halts).step s (v ++ w) = some (act s a, w) :=
        machine_step_done hl (hrun w)
      exact ⟨v ++ w, by rw [List.append_assoc, ← hw], by rw [Machine.drain_some hnext, hdrain]⟩
    · rw [Machine.drain_none (machine_step_dead (halts s e))] at h
      exact (h s e rfl).elim

end machine
end Reader
end Incremental
