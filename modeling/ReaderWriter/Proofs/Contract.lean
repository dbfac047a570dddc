import Mathlib.Algebra.Ring.Nat
import ReaderWriter.Session.Call

/-!
# Contracts of strides

A contract says what holds where a stride stops: one condition for each place
it can pause at, and one for the result it ends with. No contract allows a
stride that breaks the lock's own contract, so to meet one is to be safe.

Contracts compose along the ways strides are put together. In particular a
call that is let go on for several strides keeps whatever every single stride
keeps, so nothing below this module has to look inside `Call.goOn`.
-/

namespace ReaderWriter

namespace Stride

variable {σ τ π ρ α β : Type}

/-- The stride breaks no contract; it pauses only where `wait` holds and ends
only where `post` does. -/
def Meets (s : Stride σ π α) (wait : σ → π → Prop) (post : σ → α → Prop) : Prop :=
  match s.progress with
  | .paused place => wait s.state place
  | .finished result => post s.state result
  | .violated _ => False

namespace Meets

variable {s : Stride σ π α} {wait wait' : σ → π → Prop} {post post' : σ → α → Prop}

theorem mono (h : s.Meets wait post) (hw : ∀ m place, wait m place → wait' m place)
    (hp : ∀ m result, post m result → post' m result) : s.Meets wait' post' := by
  unfold Meets at *
  split at h
  · exact hw _ _ h
  · exact hp _ _ h
  · exact h

/-- A stride that meets a contract pauses or ends, and then as the contract says. -/
theorem cases (h : s.Meets wait post) :
    (∃ place, s.progress = .paused place ∧ wait s.state place) ∨
      ∃ result, s.progress = .finished result ∧ post s.state result := by
  rw [Meets] at h
  split at h
  · next place hp => exact .inl ⟨place, hp, h⟩
  · next result hp => exact .inr ⟨result, hp, h⟩
  · exact h.elim

theorem of_paused {place : π} (h : s.Meets wait post) (hp : s.progress = .paused place) :
    wait s.state place := by
  rw [Meets, hp] at h
  exact h

/-- What a stride has logged is no part of its contract. -/
theorem log_iff {log : List Record} : ({ s with log } : Stride σ π α).Meets wait post ↔
    s.Meets wait post := Iff.rfl

/-- A call in two parts meets a contract if the first part ends only where the
second meets it. -/
@[simp] theorem andThen_iff {embed : π → ρ} {next : α → σ → Stride σ ρ β}
    {wait : σ → ρ → Prop} {post : σ → β → Prop} :
    (s.andThen embed next).Meets wait post ↔
      s.Meets (fun m place => wait m (embed place))
        (fun m result => (next result m).Meets wait post) := by
  obtain ⟨m, log, progress⟩ := s
  cases progress <;> exact Iff.rfl

@[simp] theorem relabel_iff {embed : π → ρ} {f : α → β}
    {wait : σ → ρ → Prop} {post : σ → β → Prop} :
    (s.relabel embed f).Meets wait post ↔
      s.Meets (fun m place => wait m (embed place)) (fun m result => post m (f result)) := by
  rw [relabel, andThen_iff]
  exact Iff.rfl

@[simp] theorem within_iff {put : σ → τ} {wait : τ → π → Prop} {post : τ → α → Prop} :
    (s.within put).Meets wait post ↔
      s.Meets (fun m place => wait (put m) place) (fun m result => post (put m) result) := by
  obtain ⟨m, log, progress⟩ := s
  cases progress <;> exact Iff.rfl

end Meets

/-- The stride pauses only at places that `wait` allows and ends only with
results that `post` allows. It may break a contract. -/
def Allows (s : Stride σ π α) (wait : π → Prop) (post : α → Prop) : Prop :=
  match s.progress with
  | .paused place => wait place
  | .finished result => post result
  | .violated _ => True

/-- The places and results of a renamed stride are new names. -/
theorem relabel_allows (s : Stride σ π α) {embed : π → ρ} {f : α → β} {wait : ρ → Prop}
    {post : β → Prop} (hw : ∀ place, wait (embed place)) (hp : ∀ result, post (f result)) :
    (s.relabel embed f).Allows wait post := by
  obtain ⟨m, log, progress⟩ := s
  cases progress with
  | paused place => exact hw place
  | finished result => exact hp result
  | violated breach => trivial

end Stride

namespace Call

@[simp] theorem meets_strideOnLock {o : Object} {s : Stride Lock LockCall Ending}
    {wait : Object → Call → Prop} {post : Object → Ending → Prop} :
    (strideOnLock o s).Meets wait post ↔
      s.Meets (fun l call => wait (o.withLock l) (.onLock call))
        (fun l ending => post (o.withLock l) ending) := by
  simp only [strideOnLock, Stride.Meets.relabel_iff, Stride.Meets.within_iff, id]

@[simp] theorem meets_strideOnPayload {s : Stride Payload PayloadCall Ending}
    {wait : Object → Call → Prop} {post : Object → Ending → Prop} :
    (strideOnPayload s).Meets wait post ↔
      s.Meets (fun p call => wait (.payload p) (.onPayload call))
        (fun p ending => post (.payload p) ending) := by
  simp only [strideOnPayload, Stride.Meets.relabel_iff, Stride.Meets.within_iff, id]

/-- What every single stride keeps, any number of them keeps. The number of
the pause the call stands in goes up with every stride. -/
theorem goOn_meets (inv : Nat → Object → Call → Prop) {post : Object → Ending → Prop}
    (stride : ∀ p o call, inv p o call →
      ∃ s, call.resume? o = some s ∧ s.Meets (inv (p + 1)) post) :
    ∀ (turns p : Nat) (s : Stride Object Call Ending), s.Meets (inv p) post →
      ∃ t, goOn turns s = some t ∧ t.Meets (inv (p + turns)) post := by
  intro turns
  induction turns with
  | zero =>
      intro p s hs
      exact ⟨s, rfl, hs⟩
  | succ turns ih =>
      intro p s hs
      obtain ⟨o, log, progress⟩ := s
      cases progress with
      | paused call =>
          obtain ⟨t, ht, hm⟩ := stride p o call hs
          obtain ⟨u, hu, hfin⟩ := ih (p + 1) { t with log := log ++ t.log } hm
          refine ⟨u, ?_, ?_⟩
          · simpa only [goOn, ht] using hu
          · simpa only [Nat.add_assoc, Nat.add_comm 1] using hfin
      | finished ending => exact ⟨_, rfl, hs⟩
      | violated breach => exact hs.elim

end Call

end ReaderWriter
