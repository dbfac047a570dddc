import ReaderWriter.Proofs.Session.Moves

/-!
# Turns that leave an object alone

A turn concerns an object if it resumes a call on it, or if it is a step on it
of an actor that is not stopped. A guard over the object can be used from a step
on another object as well. Every other turn leaves the object, the calls that
are stopped on it and the guards over it as they are, provided that no call will
make a guard under a name that belongs to one of these.

So a property of one object, its calls and its guards has to be checked only for
the turns that concern the object or use a guard over it. A use of a guard from
a step on one object touches the object that the guard is over, and no other.
-/

namespace ReaderWriter

namespace Session

/-- The turn is about the object: it resumes a call on it, or it is a step on
it that is not refused because its actor is stopped. -/
def Concerns (s : Session) (key : Nat) (t : Turn) : Prop :=
  match t.step with
  | .resume _ => ∃ c ∈ s.stopped.get? t.actor, c.object = key
  | _ => t.object = key ∧ s.stopped.get? t.actor = none

instance (s : Session) (key : Nat) (t : Turn) : Decidable (s.Concerns key t) := by
  unfold Concerns
  split <;> infer_instance

/-- The number of calls on an object that are stopped where `p` holds. -/
def tally (s : Session) (key : Nat) (p : Stopped → Bool) : Nat :=
  s.stopped.count fun c => c.object == key && p c

/-- The calls that are stopped on an object. -/
def waiting (s : Session) (key : Nat) : Nat :=
  s.tally key fun _ => true

theorem tally_le_waiting (s : Session) (key : Nat) (p : Stopped → Bool) :
    s.tally key p ≤ s.waiting key := by
  rw [waiting, tally, tally]
  apply Registry.count_mono
  intro c hc
  rw [Bool.and_eq_true] at hc ⊢
  exact ⟨hc.1, rfl⟩

/-- The actor is stopped in a call on the object that has the property. -/
def Stands (s : Session) (key actor : Nat) (p : Stopped → Bool) : Prop :=
  ∃ c ∈ s.stopped.get? actor, c.object = key ∧ p c = true

instance (s : Session) (key actor : Nat) (p : Stopped → Bool) : Decidable (s.Stands key actor p) :=
  inferInstanceAs (Decidable (∃ c ∈ s.stopped.get? actor, c.object = key ∧ p c = true))

/-- The lock inside an object. -/
def lock? (s : Session) (key : Nat) : Option Lock :=
  (s.objects.get? key).bind Object.lock?

theorem lock?_eq {s : Session} {key : Nat} {o : Object} {l : Lock}
    (ho : s.objects.get? key = some o) (hl : o.lock? = some l) : s.lock? key = some l := by
  rw [lock?, ho, Option.bind_some, hl]

/-- No guard stands for the object. -/
def Unguarded (s : Session) (key : Nat) : Prop :=
  ∀ name g, s.guards.get? name = some g → g.object ≠ key

/-- The turn asks for the use of a guard over the object. -/
def Uses (s : Session) (key : Nat) (t : Turn) : Prop :=
  ∃ name use, t.step = .guard name use ∧ ∃ g, s.guards.get? name = some g ∧ g.object = key

/-- What the turn does, it does to the object: it uses a guard over the object,
or it concerns the object and uses no guard. -/
def Touches (s : Session) (key : Nat) (t : Turn) : Prop :=
  s.Uses key t ∨ s.Concerns key t ∧ ∀ name use, t.step ≠ .guard name use

/-- No stopped call will make a guard under the name of a guard over the object. -/
def KeepsNames (s : Session) (key : Nat) : Prop :=
  ∀ name g, s.guards.get? name = some g → g.object = key →
    ∀ actor c, s.stopped.get? actor = some c → c.call.guard? ≠ some name

/-- The second session has the object, the calls on it and the guards over it as
the first has them. -/
structure Agrees (key : Nat) (s s' : Session) : Prop where
  object : s'.objects.get? key = s.objects.get? key
  stopped : ∀ actor c, c.object = key →
    (s'.stopped.get? actor = some c ↔ s.stopped.get? actor = some c)
  guards : ∀ name g, g.object = key →
    (s'.guards.get? name = some g ↔ s.guards.get? name = some g)

variable {s s' : Session} {key k actor a pauses : Nat} {p : Stopped → Bool}

/-! ## Agreement -/

/-- The name is neither that of a guard nor that of one that a call will make. -/
theorem free_of_not_nameTaken {name : String} (h : s.nameTaken name = false) :
    s.guards.get? name = none ∧
      ∀ actor c, s.stopped.get? actor = some c → c.call.guard? ≠ some name := by
  rw [nameTaken, Bool.or_eq_false_iff] at h
  constructor
  · exact Option.not_isSome_iff_eq_none.mp (ne_true_of_eq_false h.1)
  · intro actor c hget
    exact beq_eq_false_iff_ne.mp (Registry.of_any_eq_false h.2 hget)

theorem withGuard_get?_self (s : Session) (name : String) (guard? : Option Guard) :
    (s.withGuard name guard?).guards.get? name = guard? := by
  cases guard? with
  | none => exact Registry.get?_erase_self _ _
  | some g => exact Registry.get?_insert_self _ _ _

theorem withGuard_get?_of_ne (s : Session) {name other : String} (h : other ≠ name)
    (guard? : Option Guard) :
    (s.withGuard name guard?).guards.get? other = s.guards.get? other := by
  cases guard? with
  | none => exact Registry.get?_erase_of_ne _ h
  | some g => exact Registry.get?_insert_of_ne _ _ h

namespace Agrees

theorem refl (s : Session) (key : Nat) : Agrees key s s :=
  ⟨rfl, fun _ _ _ => Iff.rfl, fun _ _ _ => Iff.rfl⟩

theorem tally (h : Agrees key s s') (p : Stopped → Bool) : s'.tally key p = s.tally key p := by
  apply Registry.count_congr_of_get?
  intro actor c hc
  rw [Bool.and_eq_true, beq_iff_eq] at hc
  exact h.stopped actor c hc.1

theorem unguarded (h : Agrees key s s') (hu : s.Unguarded key) : s'.Unguarded key := by
  intro name g hget hg
  exact hu name g ((h.guards name g hg).mp hget) hg

theorem withObject (h : Agrees key s s') (hk : k ≠ key) (o : Object) :
    Agrees key s (s'.withObject k o) :=
  ⟨(Registry.get?_insert_of_ne _ _ hk.symm).trans h.object, h.stopped, h.guards⟩

/-- A guard over another object is made or lost under a name that no guard over
this one has. -/
theorem withGuard (h : Agrees key s s') (name : String) {guard? : Option Guard}
    (hg : ∀ g ∈ guard?, g.object ≠ key)
    (hname : ∀ g, s.guards.get? name = some g → g.object ≠ key) :
    Agrees key s (s'.withGuard name guard?) := by
  refine ⟨by rw [withGuard_objects, h.object], ?_, ?_⟩
  · intro a c hc
    rw [withGuard_stopped]
    exact h.stopped a c hc
  · intro other g hobject
    by_cases hother : other = name
    · subst hother
      rw [withGuard_get?_self]
      exact iff_of_false (fun hget => hg g hget hobject) fun hget => hname g hget hobject
    · rw [withGuard_get?_of_ne s' hother]
      exact h.guards other g hobject

/-- The end of a stride of a call on another object. -/
theorem settle (hk : k ≠ key)
    (hfree : ∀ c, s.stopped.get? actor = some c → c.object ≠ key) (pauses : Nat)
    {t : Stride Object Call Ending} {name? : Option String} (hnames : Call.Names name? t)
    (hname : ∀ name ∈ name?, ∀ g, s.guards.get? name = some g → g.object ≠ key) :
    Agrees key s (s.settle actor k pauses t).1 := by
  refine ⟨?_, ?_, ?_⟩
  · rw [settle_objects, Registry.get?_insert_of_ne _ _ hk.symm]
  · intro a c hc
    by_cases ha : a = actor
    · subst ha
      have hnot : s.stopped.get? a ≠ some c := fun hget => hfree c hget hc
      rw [settle_get?_self]
      split
      · refine iff_of_false ?_ hnot
        rintro ⟨rfl⟩
        exact hk hc
      · exact iff_of_false (by simp) hnot
    · rw [settle_get?_of_ne s ha]
  · intro name g hg
    rw [settle_guards]
    obtain ⟨m, log, progress⟩ := t
    cases progress with
    | paused call => exact Iff.rfl
    | violated breach => exact Iff.rfl
    | finished ending =>
        cases ending with
        | guard made mode =>
            have hmade : some made = name? := hnames
            by_cases hother : name = made
            · subst hother
              refine iff_of_false ?_ fun hget => hname name hmade.symm g hget hg
              rw [Registry.get?_insert_self]
              rintro ⟨rfl⟩
              exact hk hg
            · dsimp only
              rw [Registry.get?_insert_of_ne _ _ hother]
        | plain => exact Iff.rfl
        | walked reads writes => exact Iff.rfl

end Agrees

/-- A step of an actor that is not stopped concerns the object it is about. -/
theorem concerns_of_free {step : Step} (hfree : s.stopped.get? actor = none)
    (hr : step.isResume = false) : s.Concerns key ⟨actor, key, step⟩ := by
  cases step with
  | resume turns => cases hr
  | _ => exact ⟨rfl, hfree⟩

/-- What a turn begins concerns the object that the turn is about. -/
theorem Begins.concerns_iff {t : Turn} (h : s.Begins t) :
    s.Concerns key t ↔ t.object = key := by
  obtain ⟨a, k, step⟩ := t
  obtain ⟨hfree, hr⟩ := h
  cases step with
  | resume turns => cases hr
  | _ => exact and_iff_left hfree

/-- What a turn begins without a guard, it does to the object that it is about. -/
theorem Begins.touches_iff {t : Turn} (h : s.Begins t)
    (hstep : ∀ name use, t.step ≠ .guard name use) : s.Touches key t ↔ t.object = key := by
  constructor
  · rintro (⟨name, use, asked, -⟩ | ⟨hc, -⟩)
    · exact absurd asked (hstep name use)
    · exact h.concerns_iff.mp hc
  · intro hk
    exact .inr ⟨h.concerns_iff.mpr hk, hstep⟩

/-- A use of a guard is done to the object that the guard is over. -/
theorem touches_iff_of_use {t : Turn} {name : String} {use : GuardUse} {g : Guard}
    (asked : t.step = .guard name use) (alive : s.guards.get? name = some g) :
    s.Touches key t ↔ g.object = key := by
  constructor
  · rintro (⟨name', use', asked', g', alive', hg⟩ | ⟨-, hstep⟩)
    · rw [asked] at asked'
      cases asked'
      rw [alive] at alive'
      cases alive'
      exact hg
    · exact absurd asked (hstep name use)
  · intro hg
    exact .inl ⟨name, use, asked, g, alive, hg⟩

/-- A resume is done to the object that the call is on. -/
theorem touches_iff_of_resume {t : Turn} {turns : Nat} {c : Stopped}
    (asked : t.step = .resume turns) (stopped : s.stopped.get? t.actor = some c) :
    s.Touches key t ↔ c.object = key := by
  rw [Touches, Concerns, asked, stopped]
  constructor
  · rintro (⟨name, use, asked', -⟩ | ⟨⟨c', hc', hobject⟩, -⟩)
    · rw [asked] at asked'
      cases asked'
    · cases hc'
      exact hobject
  · intro hc
    exact .inr ⟨⟨c, rfl, hc⟩, by simp⟩

/-- A turn that does nothing to an object leaves it alone. -/
theorem take_agrees {t : Turn} (h : s.KeepsNames key) (ht : ¬ s.Touches key t) :
    Agrees key s (s.take t).1 := by
  have elsewhere : s.Begins t → (∀ name use, t.step ≠ .guard name use) → t.object ≠ key :=
    fun begun hstep => mt (begun.touches_iff hstep).mpr ht
  have nobody : s.Begins t → ∀ c, s.stopped.get? t.actor = some c → c.object ≠ key := by
    intro begun c hget
    rw [begun.free] at hget
    cases hget
  have hmoves := s.take_moves t
  generalize s.take t = u at hmoves ⊢
  cases hmoves with
  | stays reply vain kept => exact .refl s key
  | sets o reply begun asked =>
      have hstep : ∀ name use, t.step ≠ .guard name use := by
        obtain ⟨what, asked⟩ | ⟨design, asked⟩ := asked <;> simp [asked]
      exact (Agrees.refl s key).withObject (elsewhere begun hstep) o
  | removes reply log begun asked =>
      obtain ⟨how, asked⟩ := asked
      exact ⟨Registry.get?_erase_of_ne _ (elsewhere begun (by simp [asked])).symm,
        fun _ _ _ => Iff.rfl, fun _ _ _ => Iff.rfl⟩
  | begins went begun asked unguarded names =>
      exact .settle (elsewhere begun unguarded) (nobody begun) _ names (by simp)
  | makes name mode l values begun there untaken asked =>
      have hk : t.object ≠ key := by
        apply elsewhere begun
        intro name use hstep
        rw [hstep] at asked
        cases asked
      apply Agrees.settle hk (nobody begun) _ (Call.names_acquire (some name) mode l)
      rintro made ⟨⟩ g hget
      rw [(free_of_not_nameTaken untaken).1] at hget
      cases hget
  | obtains name mode l m values begun there untaken asked granted =>
      have hk := elsewhere begun (by simp [asked])
      dsimp only
      apply ((Agrees.refl s key).withObject hk _).withGuard name
      · rintro g ⟨⟩
        exact hk
      · intro g hget
        rw [(free_of_not_nameTaken untaken).1] at hget
        cases hget
  | misses name mode l m values why begun there asked refused =>
      exact (Agrees.refl s key).withObject (elsewhere begun (by simp [asked])) _
  | uses name g use l values r begun alive there asked run =>
      have hk : g.object ≠ key := mt (touches_iff_of_use asked alive).mpr ht
      dsimp only
      apply ((Agrees.refl s key).withObject hk _).withGuard name
      · intro g' hg'
        obtain ⟨mode, -, rfl⟩ := Option.map_eq_some_iff.mp hg'
        exact hk
      · intro g' hg'
        rw [alive] at hg'
        cases hg'
        exact hk
  | resumes turns c o went stopped there asked run =>
      have hc : c.object ≠ key := mt (touches_iff_of_resume asked stopped).mpr ht
      have hnames : Call.Names c.call.guard? went :=
        Call.names_goOn (s := .pauseAt o c.call) _ rfl run
      apply Agrees.settle hc _ _ hnames
      · intro name hname g hget hg
        exact h name g hget hg t.actor c stopped hname
      · intro c' hget
        rw [stopped] at hget
        cases hget
        exact hc

/-- An object without guards is left alone by the turns that do not concern it. -/
theorem Unguarded.take_agrees {t : Turn} (h : s.Unguarded key) (ht : ¬ s.Concerns key t) :
    Agrees key s (s.take t).1 := by
  apply Session.take_agrees
  · intro name g hget hg
    exact absurd hg (h name g hget)
  · rintro (⟨name, use, -, g, hget, hg⟩ | ⟨hc, -⟩)
    · exact h name g hget hg
    · exact ht hc

/-! ## Where actors stand -/

theorem stands_iff {c : Stopped} (hget : s.stopped.get? actor = some c) (hc : c.object = key) :
    s.Stands key actor p ↔ p c = true := by
  constructor
  · rintro ⟨c', hget', -, hp⟩
    rw [hget] at hget'
    cases hget'
    exact hp
  · intro hp
    exact ⟨c, hget, hc, hp⟩

theorem not_stands_of_free (hfree : s.stopped.get? actor = none) : ¬ s.Stands key actor p := by
  rintro ⟨c, hget, -⟩
  rw [hfree] at hget
  cases hget

theorem Agrees.stands_iff (h : s.Agrees key s') : s'.Stands key a p ↔ s.Stands key a p := by
  constructor
  · rintro ⟨c, hget, hc, hp⟩
    exact ⟨c, (h.stopped a c hc).mp hget, hc, hp⟩
  · rintro ⟨c, hget, hc, hp⟩
    exact ⟨c, (h.stopped a c hc).mpr hget, hc, hp⟩

theorem stands_settle_of_ne (ha : a ≠ actor) (t : Stride Object Call Ending) :
    (s.settle actor key pauses t).1.Stands key a p ↔ s.Stands key a p := by
  rw [Stands, Stands, settle_get?_of_ne s ha]

theorem stands_settle_self (t : Stride Object Call Ending) :
    (s.settle actor key pauses t).1.Stands key actor p ↔
      ∃ call, t.progress = .paused call ∧ p ⟨key, pauses, call⟩ = true := by
  rw [Stands, settle_get?_self]
  cases t.progress with
  | paused call => simp
  | finished ending => simp
  | violated breach => simp

end Session

end ReaderWriter
