import ReaderWriter.Session.Basic

/-!
# Along a script

A script is taken turn by turn, and what is kept besides the session may be
whatever a proof counts. What holds of every turn, and what holds in every state
on the way, is said by recursion on the script; what every turn keeps holds
throughout.
-/

namespace ReaderWriter.Script

variable {σ : Type}

/-- Where a script leads. -/
def run (next : σ → Turn → σ) (b : σ) (script : List Turn) : σ :=
  script.foldl next b

/-- Every turn of the script is taken where `P` holds of it. -/
def EveryTurn (next : σ → Turn → σ) (P : σ → Turn → Prop) : σ → List Turn → Prop
  | _, [] => True
  | b, t :: rest => P b t ∧ EveryTurn next P (next b t) rest

/-- The state satisfies `I` before the script and after every turn of it. -/
def Throughout (next : σ → Turn → σ) (I : σ → Prop) : σ → List Turn → Prop
  | b, [] => I b
  | b, t :: rest => I b ∧ Throughout next I (next b t) rest

variable {next : σ → Turn → σ} {P Q : σ → Turn → Prop} {I J : σ → Prop}
variable {b : σ} {script first rest : List Turn}

instance EveryTurn.decidable [∀ b t, Decidable (P b t)] :
    ∀ b script, Decidable (EveryTurn next P b script)
  | _, [] => .isTrue trivial
  | b, t :: rest =>
    have := decidable (next b t) rest
    inferInstanceAs (Decidable (_ ∧ _))

instance Throughout.decidable [DecidablePred I] :
    ∀ b script, Decidable (Throughout next I b script)
  | b, [] => inferInstanceAs (Decidable (I b))
  | b, t :: rest =>
    have := decidable (next b t) rest
    inferInstanceAs (Decidable (_ ∧ _))

@[simp] theorem run_nil : run next b [] = b := rfl

@[simp] theorem run_cons (t : Turn) : run next b (t :: rest) = run next (next b t) rest := rfl

theorem run_append : run next b (first ++ rest) = run next (run next b first) rest :=
  List.foldl_append

theorem EveryTurn.append_iff : EveryTurn next P b (first ++ rest) ↔
    EveryTurn next P b first ∧ EveryTurn next P (run next b first) rest := by
  induction first generalizing b with
  | nil => exact ⟨fun h => ⟨trivial, h⟩, fun h => h.2⟩
  | cons t first ih => exact (and_congr_right fun _ => ih).trans and_assoc.symm

theorem EveryTurn.of_mem {p : Turn → Prop} (h : ∀ t ∈ script, p t) :
    EveryTurn next (fun _ t => p t) b script := by
  induction script generalizing b with
  | nil => trivial
  | cons t rest ih =>
      exact ⟨h t List.mem_cons_self, ih fun u hu => h u (List.mem_cons_of_mem t hu)⟩

theorem EveryTurn.mono (h : EveryTurn next P b script) (himp : ∀ b t, P b t → Q b t) :
    EveryTurn next Q b script := by
  induction script generalizing b with
  | nil => trivial
  | cons t rest ih => exact ⟨himp b t h.1, ih h.2⟩

theorem EveryTurn.and (hp : EveryTurn next P b script) (hq : EveryTurn next Q b script) :
    EveryTurn next (fun b t => P b t ∧ Q b t) b script := by
  induction script generalizing b with
  | nil => trivial
  | cons t rest ih => exact ⟨⟨hp.1, hq.1⟩, ih hp.2 hq.2⟩

theorem Throughout.start (h : Throughout next I b script) : I b := by
  cases script with
  | nil => exact h
  | cons t rest => exact h.1

theorem Throughout.of_append (h : Throughout next I b (first ++ rest)) :
    Throughout next I b first := by
  induction first generalizing b with
  | nil => exact h.start
  | cons t first ih => exact ⟨h.1, ih h.2⟩

theorem Throughout.last (h : Throughout next I b script) : I (run next b script) := by
  induction script generalizing b with
  | nil => exact h
  | cons t rest ih => exact ih h.2

theorem Throughout.mono (h : Throughout next I b script) (himp : ∀ b, I b → J b) :
    Throughout next J b script := by
  induction script generalizing b with
  | nil => exact himp b h
  | cons t rest ih => exact ⟨himp b h.1, ih h.2⟩

theorem Throughout.and (hi : Throughout next I b script) (hj : Throughout next J b script) :
    Throughout next (fun b => I b ∧ J b) b script := by
  induction script generalizing b with
  | nil => exact ⟨hi, hj⟩
  | cons t rest ih => exact ⟨⟨hi.1, hj.1⟩, ih hi.2 hj.2⟩

/-- What holds throughout a script holds before and after each of its turns. -/
theorem Throughout.everyTurn (h : Throughout next I b script) :
    EveryTurn next (fun b t => I b ∧ I (next b t)) b script := by
  induction script generalizing b with
  | nil => trivial
  | cons t rest ih => exact ⟨⟨h.1, h.2.start⟩, ih h.2⟩

/-- What every turn keeps holds throughout, and each turn shows what it shows
where it is taken. -/
theorem EveryTurn.keeps (h : EveryTurn next P b script) (hb : I b)
    (turn : ∀ b t, I b → P b t → I (next b t) ∧ Q b t) :
    Throughout next I b script ∧ EveryTurn next Q b script := by
  induction script generalizing b with
  | nil => exact ⟨hb, trivial⟩
  | cons t rest ih =>
      obtain ⟨hnext, hq⟩ := turn b t hb h.1
      obtain ⟨hall, hevery⟩ := ih h.2 hnext
      exact ⟨⟨hb, hall⟩, hq, hevery⟩

/-- What every turn keeps holds throughout. -/
theorem EveryTurn.invariant (h : EveryTurn next P b script) (hb : I b)
    (turn : ∀ b t, I b → P b t → I (next b t)) : Throughout next I b script :=
  (h.keeps (Q := fun _ _ => True) hb fun b t hi hp => ⟨turn b t hi hp, trivial⟩).1

end ReaderWriter.Script
