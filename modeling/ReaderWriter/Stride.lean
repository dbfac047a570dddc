import ReaderWriter.Record
import ReaderWriter.Violation

/-!
# Strides of a call

A call that has to wait spins, and every turn of a spin loop is a pause at
which other callers may run. Between two pauses a call is atomic, so it is
cut into strides: a stride takes the state of what the call works on to a new
state, logs, and either stands in a pause again or ends the call.

Where a paused call stands is a value, so a suspended call can be stored,
looked at and resumed; nothing of it is hidden in a continuation.
-/

namespace ReaderWriter

/-- What a call has come to at the end of a stride. -/
inductive Progress (π α : Type) where
  /-- The call stands in a pause at the given place. -/
  | paused (place : π)
  /-- The call has returned. -/
  | finished (result : α)
  /-- The call stopped for good at a broken contract. -/
  | violated (breach : Violation)
deriving DecidableEq

/-- One stride of a call: the state it leaves, its log, and its progress. -/
structure Stride (σ π α : Type) where
  state : σ
  log : List Record
  progress : Progress π α
deriving DecidableEq

namespace Stride

variable {σ τ π ρ α β : Type}

/-- The stride that ends a call with a result and logs nothing. -/
def done (state : σ) (result : α) : Stride σ π α :=
  ⟨state, [], .finished result⟩

/-- The stride that runs into a pause and logs nothing. -/
def pauseAt (state : σ) (place : π) : Stride σ π α :=
  ⟨state, [], .paused place⟩

/-- The stride of a call that never waits and may find its contract broken. -/
def ofCheck (outcome : σ × Except Violation α) : Stride σ π α :=
  match outcome with
  | (state, .ok result) => ⟨state, [], .finished result⟩
  | (state, .error breach) => ⟨state, [], .violated breach⟩

/-- Goes on with a further part of the call once the first part has returned.
A pause in the first part is a pause of the whole, at the place `embed` names. -/
def andThen (s : Stride σ π α) (embed : π → ρ) (next : α → σ → Stride σ ρ β) : Stride σ ρ β :=
  match s.progress with
  | .paused place => ⟨s.state, s.log, .paused (embed place)⟩
  | .violated breach => ⟨s.state, s.log, .violated breach⟩
  | .finished result =>
    let t := next result s.state
    ⟨t.state, s.log ++ t.log, t.progress⟩

/-- Renames the places and the result of a call. -/
def relabel (s : Stride σ π α) (embed : π → ρ) (f : α → β) : Stride σ ρ β :=
  s.andThen embed fun result state => done state (f result)

/-- Sees the stride as one on a larger state that holds the first. -/
def within (s : Stride σ π α) (put : σ → τ) : Stride τ π α :=
  ⟨put s.state, s.log, s.progress⟩

@[simp] theorem state_done (state : σ) (result : α) :
    (done state result : Stride σ π α).state = state := rfl

@[simp] theorem state_pauseAt (state : σ) (place : π) :
    (pauseAt state place : Stride σ π α).state = state := rfl

@[simp] theorem state_within (s : Stride σ π α) (put : σ → τ) :
    (s.within put).state = put s.state := rfl

@[simp] theorem log_within (s : Stride σ π α) (put : σ → τ) : (s.within put).log = s.log := rfl

@[simp] theorem progress_within (s : Stride σ π α) (put : σ → τ) :
    (s.within put).progress = s.progress := rfl

@[simp] theorem andThen_done (state : σ) (result : α) (embed : π → ρ)
    (next : α → σ → Stride σ ρ β) :
    (done state result : Stride σ π α).andThen embed next = next result state := rfl

@[simp] theorem andThen_pauseAt (state : σ) (place : π) (embed : π → ρ)
    (next : α → σ → Stride σ ρ β) :
    (pauseAt state place : Stride σ π α).andThen embed next = pauseAt state (embed place) := rfl

@[simp] theorem ofCheck_ok (state : σ) (result : α) :
    (ofCheck (state, .ok result) : Stride σ π α) = done state result := rfl

@[simp] theorem ofCheck_error (state : σ) (breach : Violation) :
    (ofCheck (state, .error breach) : Stride σ π α) = ⟨state, [], .violated breach⟩ := rfl

/-- A part that broke the contract is the last. -/
@[simp] theorem andThen_violated (state : σ) (log : List Record) (breach : Violation)
    (embed : π → ρ) (next : α → σ → Stride σ ρ β) :
    (⟨state, log, .violated breach⟩ : Stride σ π α).andThen embed next =
      ⟨state, log, .violated breach⟩ := rfl

end Stride

end ReaderWriter
