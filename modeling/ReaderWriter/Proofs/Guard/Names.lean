import ReaderWriter.Proofs.Session.Frame

/-!
# Names of guards

The name of a guard over an object, or of one that a call on the object will
make, is nobody else's: no other call will make a guard under it. So a guard
that comes into being takes nobody's place, and a guard stays the one it is for
as long as it is alive.

What happens elsewhere is left open. Calls on other objects may well compete for
a name, but not for one that is in use here.
-/

namespace ReaderWriter.Session

/-- The names of the guards over an object are not those of guards to come, and
the names of the guards that calls on it will make are unused and those of no
other call. -/
structure NamesApart (key : Nat) (s : Session) : Prop where
  alive : s.KeepsNames key
  unused : ∀ a c name, s.stopped.get? a = some c → c.object = key →
    c.call.guard? = some name → s.guards.get? name = none
  unshared : ∀ a a' c c' name, s.stopped.get? a = some c → c.object = key →
    c.call.guard? = some name → s.stopped.get? a' = some c' → c'.call.guard? = some name → a' = a

variable {s : Session} {key k actor pauses : Nat} {name : String}

/-- The name may be taken by a guard of the actor over object `k`: if there is a
guard under it, then elsewhere, and if another call will make one, then neither
of the two objects is this one. -/
structure Available (key k actor : Nat) (s : Session) (name : String) : Prop where
  guards : ∀ g, s.guards.get? name = some g → g.object ≠ key ∧ k ≠ key
  stopped : ∀ a c, a ≠ actor → s.stopped.get? a = some c → c.call.guard? = some name →
    c.object ≠ key ∧ k ≠ key

/-- A name that nobody has is available to everybody. -/
theorem available_of_not_nameTaken (h : s.nameTaken name = false) :
    s.Available key k actor name := by
  obtain ⟨hunused, hpending⟩ := free_of_not_nameTaken h
  constructor
  · intro g hget
    rw [hunused] at hget
    cases hget
  · intro a c _ hget hname
    exact absurd hname (hpending a c hget)

namespace NamesApart

/-- Where no guard and no call has to do with the object, there is nothing to
keep apart. -/
theorem of_unused (hu : s.Unguarded key)
    (hq : ∀ actor c, s.stopped.get? actor = some c → c.object ≠ key) : s.NamesApart key where
  alive name g hget hg := absurd hg (hu name g hget)
  unused a c _ hget hc := absurd hc (hq a c hget)
  unshared a _ c _ _ hget hc := absurd hc (hq a c hget)

/-- The name of a stopped call is available to it. -/
theorem available {c : Stopped} (h : s.NamesApart key) (hget : s.stopped.get? actor = some c)
    (hname : c.call.guard? = some name) : s.Available key c.object actor name := by
  constructor
  · intro g hg
    constructor
    · intro hobject
      exact h.alive name g hg hobject actor c hget hname
    · intro hc
      rw [h.unused actor c name hget hc hname] at hg
      cases hg
  · intro a c' ha hget' hname'
    constructor
    · intro hc'
      exact ha (h.unshared a actor c' c name hget' hc' hname' hget hname).symm
    · intro hc
      exact ha (h.unshared actor a c c' name hget hc hname hget' hname')

/-- Calls end, and the guards stay. -/
theorem of_stopped {s' : Session} (h : s.NamesApart key) (hguards : s'.guards = s.guards)
    (hstopped : ∀ a c, s'.stopped.get? a = some c → s.stopped.get? a = some c) :
    s'.NamesApart key := by
  constructor
  · intro name g hget hg a c hget'
    rw [hguards] at hget
    exact h.alive name g hget hg a c (hstopped a c hget')
  · intro a c name hget
    rw [hguards]
    exact h.unused a c name (hstopped a c hget)
  · intro a a' c c' name hget hc hname hget'
    exact h.unshared a a' c c' name (hstopped a c hget) hc hname (hstopped a' c' hget')

/-- A call comes to stand in a pause. -/
theorem insert {call : Call} (h : s.NamesApart key)
    (hname : ∀ name, call.guard? = some name → s.Available key k actor name) :
    { s with stopped := s.stopped.insert actor ⟨k, pauses, call⟩ }.NamesApart key := by
  have split : ∀ a c, (s.stopped.insert actor ⟨k, pauses, call⟩).get? a = some c →
      a = actor ∧ c = ⟨k, pauses, call⟩ ∨ a ≠ actor ∧ s.stopped.get? a = some c := by
    intro a c hget
    by_cases ha : a = actor
    · subst ha
      rw [Registry.get?_insert_self] at hget
      exact .inl ⟨rfl, (Option.some.inj hget).symm⟩
    · rw [Registry.get?_insert_of_ne _ _ ha] at hget
      exact .inr ⟨ha, hget⟩
  constructor
  · intro name g hget hg a c hstopped hc
    obtain ⟨rfl, rfl⟩ | ⟨-, hstopped⟩ := split a c hstopped
    · exact ((hname name hc).guards g hget).1 hg
    · exact h.alive name g hget hg a c hstopped hc
  · intro a c name hstopped hobject hc
    obtain ⟨rfl, rfl⟩ | ⟨-, hstopped⟩ := split a c hstopped
    · exact Option.eq_none_iff_forall_ne_some.mpr fun g hget =>
        ((hname name hc).guards g hget).2 hobject
    · exact h.unused a c name hstopped hobject hc
  · intro a a' c c' name hget hobject hc hget' hc'
    obtain ⟨rfl, rfl⟩ | ⟨ha, hstopped⟩ := split a c hget
    · obtain ⟨ha', -⟩ | ⟨ha', hstopped'⟩ := split a' c' hget'
      · exact ha'
      · exact absurd hobject ((hname name hc).stopped a' c' ha' hstopped' hc').2
    · obtain ⟨rfl, rfl⟩ | ⟨-, hstopped'⟩ := split a' c' hget'
      · exact absurd hobject ((hname name hc').stopped a c ha hstopped hc).1
      · exact h.unshared a a' c c' name hstopped hobject hc hstopped' hc'

/-- A guard is made or lost under a name that no call will use, unless both the
call and the guard are elsewhere. -/
theorem withGuard {guard? : Option Guard} (h : s.NamesApart key)
    (hname : ∀ a c, s.stopped.get? a = some c → c.call.guard? = some name →
      c.object ≠ key ∧ ∀ g ∈ guard?, g.object ≠ key) :
    (s.withGuard name guard?).NamesApart key := by
  constructor
  · intro other g hget hg a c hstopped hc
    rw [withGuard_stopped] at hstopped
    by_cases hother : other = name
    · subst hother
      rw [withGuard_get?_self] at hget
      exact (hname a c hstopped hc).2 g hget hg
    · rw [withGuard_get?_of_ne s hother] at hget
      exact h.alive other g hget hg a c hstopped hc
  · intro a c other hstopped hobject hc
    rw [withGuard_stopped] at hstopped
    have hother : other ≠ name := by
      rintro rfl
      exact (hname a c hstopped hc).1 hobject
    rw [withGuard_get?_of_ne s hother]
    exact h.unused a c other hstopped hobject hc
  · rw [withGuard_stopped]
    exact h.unshared

/-- The end of a stride of a call whose name is available to it. -/
theorem settle {t : Stride Object Call Ending} {name? : Option String} (h : s.NamesApart key)
    (hnames : Call.Names name? t) (hname : ∀ name ∈ name?, s.Available key k actor name) :
    (s.settle actor k pauses t).1.NamesApart key := by
  obtain ⟨o, log, progress⟩ := t
  have set : (s.withObject k o).NamesApart key := ⟨h.alive, h.unused, h.unshared⟩
  have others : ∀ a c, (s.stopped.erase actor).get? a = some c →
      a ≠ actor ∧ s.stopped.get? a = some c := by
    intro a c hget
    have ha : a ≠ actor := by
      rintro rfl
      rw [Registry.get?_erase_self] at hget
      cases hget
    rw [Registry.get?_erase_of_ne _ ha] at hget
    exact ⟨ha, hget⟩
  have ended : { s.withObject k o with stopped := s.stopped.erase actor }.NamesApart key :=
    set.of_stopped rfl fun a c hget => (others a c hget).2
  cases progress with
  | violated breach => exact ended
  | paused call =>
      have hcall : call.guard? = name? := hnames
      apply set.insert
      intro name hc
      obtain ⟨hguards, hstopped⟩ := hname name (hcall ▸ hc)
      exact ⟨hguards, hstopped⟩
  | finished ending =>
      cases ending with
      | plain => exact ended
      | walked reads writes => exact ended
      | guard made mode =>
          have hmade : some made = name? := hnames
          change (Session.withGuard _ made (some ⟨k, mode⟩)).NamesApart key
          apply ended.withGuard
          intro a c hget hc
          obtain ⟨ha, hget⟩ := others a c hget
          obtain ⟨hobject, hk⟩ := (hname made hmade.symm).stopped a c ha hget hc
          refine ⟨hobject, ?_⟩
          rintro g ⟨⟩
          exact hk

/-- Every turn keeps the names apart. -/
theorem take (h : s.NamesApart key) (t : Turn) : (s.take t).1.NamesApart key := by
  have set : ∀ k o, (s.withObject k o).NamesApart key :=
    fun k o => ⟨h.alive, h.unused, h.unshared⟩
  have hmoves := s.take_moves t
  generalize s.take t = u at hmoves ⊢
  cases hmoves with
  | stays reply vain kept => exact h
  | sets o reply begun asked => exact set t.object o
  | removes reply log begun asked => exact ⟨h.alive, h.unused, h.unshared⟩
  | begins went begun asked unguarded names => exact h.settle names (by simp)
  | makes name mode l values begun there untaken asked =>
      apply h.settle (Call.names_acquire (some name) mode l)
      rintro made ⟨⟩
      exact available_of_not_nameTaken untaken
  | obtains name mode l m values begun there untaken asked granted =>
      dsimp only
      apply (set _ _).withGuard
      intro a c hget hname
      exact absurd hname ((free_of_not_nameTaken untaken).2 a c hget)
  | misses name mode l m values why begun there asked refused => exact set _ _
  | uses name g use l values r begun alive there asked run =>
      dsimp only
      apply (set _ _).withGuard
      intro a c hget hname
      constructor
      · intro hc
        have hunused := h.unused a c name hget hc hname
        rw [alive] at hunused
        cases hunused
      · intro g' hg'
        obtain ⟨mode, -, rfl⟩ := Option.map_eq_some_iff.mp hg'
        intro hg
        exact h.alive name g alive hg a c hget hname
  | resumes turns c o went stopped there asked run =>
      have hnames : Call.Names c.call.guard? went :=
        Call.names_goOn (s := .pauseAt o c.call) _ rfl run
      exact h.settle hnames fun name hname => h.available stopped hname

end NamesApart

end ReaderWriter.Session
