import ReaderWriter.Proofs.Guard.Tenancy
import ReaderWriter.Proofs.Session.Accounts

/-!
# Sound tenancies

A tenancy is sound if the words of its lock are balanced against the holds, with
a guard or without, and against what the stopped calls have at stake; the calls
that are stopped on the object are acquisitions that will make a guard.

A turn that keeps to guards makes a guard, uses one, or goes on with a call, and
each of them keeps the tenancy sound. What the turn does to the vector and to
the guards that are alive is said along with it.
-/

namespace ReaderWriter

/-- The call is an acquisition that will make a guard. -/
def Stopped.MakesGuard (c : Stopped) : Prop :=
  ∃ name mode, c.call.StandsAt (some name) mode c.pauses

theorem Stopped.MakesGuard.isStarved_eq {c : Stopped} (h : c.MakesGuard) :
    c.isStarved = c.call.hasRaised := by
  obtain ⟨name, mode, h⟩ := h
  exact h.isStarved_eq

theorem Call.StandsAt.guard?_eq {call : Call} {guard? : Option String} {mode : Mode} {p : Nat}
    (h : call.StandsAt guard? mode p) : call.guard? = guard? := by
  cases mode with
  | read =>
      rw [h.2]
      rfl
  | write =>
      obtain ⟨place, hcall⟩ := h
      rw [hcall]
      rfl

namespace Session

/-- What a turn that keeps to guards does to the data of an object, and to the
guards over it. -/
structure Serves (key : Nat) (s : Session) (t : Turn) (s' : Session) (reply : Reply)
    (values values' : List Int) : Prop where
  /-- No contract is broken. -/
  kept : s.Touches key t → ∀ breach, reply ≠ .violated breach
  /-- The data changes only by a push or a pop through a guard for writing. -/
  data : values' = values ∨ ∃ name use, t.step = .guard name use ∧
    s.guards.get? name = some ⟨key, .write⟩ ∧ use.Edits values values'
  /-- A guard stays as it is unless a use of it succeeds. -/
  lasts : ∀ name mode, s.guards.get? name = some ⟨key, mode⟩ →
    (∀ use, t.step = .guard name use → reply ≠ .ok) → s'.guards.get? name = some ⟨key, mode⟩
  /-- A use that succeeds leaves the guard as such a use does. -/
  trades : ∀ name mode use, s.guards.get? name = some ⟨key, mode⟩ → t.step = .guard name use →
    reply = .ok → s'.guards.get? name = (use.mode? mode).map (⟨key, ·⟩)

variable {s s' : Session} {key actor pauses : Nat} {t : Turn} {reply : Reply} {values : List Int}

/-- The turn leaves the data and the guards alone. -/
theorem Serves.of_guards (kept : s.Touches key t → ∀ breach, reply ≠ .violated breach)
    (unused : s.Uses key t → reply ≠ .ok)
    (h : ∀ name mode, s.guards.get? name = some ⟨key, mode⟩ →
      s'.guards.get? name = some ⟨key, mode⟩) : s.Serves key t s' reply values values where
  kept := kept
  data := .inl rfl
  lasts name mode hget _ := h name mode hget
  trades name mode use hget asked hok :=
    absurd hok (unused ⟨name, use, asked, ⟨key, mode⟩, hget, rfl⟩)

/-- A use of a guard over the object serves all guards over it. -/
theorem Serves.of_use {name : String} {mode : Mode} {use : GuardUse} {r : GuardOutcome} {h : Holds}
    {owners raisers : Nat} (served : use.Served h mode values r owners raisers)
    (asked : t.step = .guard name use) (alive : s.guards.get? name = some ⟨key, mode⟩)
    (hguards : s'.guards = (s.withGuard name (r.mode?.map (⟨key, ·⟩))).guards) :
    s.Serves key t s' r.reply values r.values where
  kept _ := served.kept
  data := by
    refine served.data.imp_right ?_
    rintro ⟨rfl, hedits⟩
    exact ⟨name, use, asked, alive, hedits⟩
  lasts other mode' hget hfails := by
    rw [hguards]
    by_cases hother : other = name
    · subst hother
      rw [withGuard_get?_self, served.alive, if_neg (hfails use asked), ← hget, alive]
      rfl
    · rw [withGuard_get?_of_ne _ hother]
      exact hget
  trades other mode' use' hget asked' hok := by
    rw [asked] at asked'
    cases asked'
    rw [alive] at hget
    cases hget
    rw [hguards, withGuard_get?_self, served.alive, if_pos hok]

/-- The end of a stride makes no guard but the one it is for. -/
theorem settle_guards_of_alive {went : Stride Object Call Ending} {name? : Option String}
    (hnames : Call.Names name? went) (hname : ∀ name ∈ name?, s.guards.get? name = none)
    {name : String} {g : Guard} (alive : s.guards.get? name = some g) :
    (s.settle actor key pauses went).1.guards.get? name = some g := by
  rw [settle_guards]
  split
  · next made mode hp =>
      have hmade : some made = name? := by
        rw [Call.Names, Stride.Allows, hp] at hnames
        exact hnames
      have hne : name ≠ made := by
        rintro rfl
        rw [hname name hmade.symm] at alive
        cases alive
      rw [Registry.get?_insert_of_ne _ _ hne]
      exact alive
  · exact alive

end Session

namespace Tenancy

open Session

variable {key actor : Nat} {b : Tenancy} {l : Lock} {values : List Int} {t : Turn}

/-- The words of the lock of object `key` are balanced, the names of its guards
are kept apart, and the calls stopped on it will make guards. -/
structure Sound (key : Nat) (b : Tenancy) (l : Lock) (values : List Int) : Prop
    extends b.session.Accords key Stopped.MakesGuard (b.holds key) (.vector l values) l where
  apart : b.session.NamesApart key

/-- What has been granted, has been granted while the flag was down or nobody
was registered. -/
def Sheltered (key : Nat) (b b' : Tenancy) (m : Lock) : Prop :=
  m.flag = false ∨ m.isEmpty = true ∨
    ((b'.holds key).reads ≤ (b.holds key).reads ∧ (b'.holds key).writes ≤ (b.holds key).writes)

/-- What is shown of a turn that leads to the session `s'` with a reply. -/
def Proceeds (key : Nat) (b : Tenancy) (t : Turn) (values : List Int) (s' : Session)
    (reply : Reply) : Prop :=
  let b' : Tenancy := ⟨s', b.forgotten.gain? (b.session.forgets? key t)⟩
  ∃ m values', Sound key b' m values' ∧ Sheltered key b b' m ∧
    b.session.Serves key t s' reply values values'

namespace Sound

/-- Where no guard and no call has to do with the lock, it is as good as new. -/
theorem of_fresh {s : Session} (fresh : s.Fresh key (.vector .fresh values)) :
    Sound key ⟨s, .none⟩ .fresh values where
  object := fresh.object
  lock := rfl
  calls actor c hget hc := absurd hc (fresh.unused actor c hget)
  balanced := by
    rw [draining, raised, tally_eq_zero fresh.unused, tally_eq_zero fresh.unused, holds,
      held_of_unguarded fresh.unguarded]
    exact Lock.fresh_balanced
  apart := .of_unused fresh.unguarded fresh.unused

/-- The holds that are left are those from before, or there are fewer. -/
theorem sheltered_of_eq {b' : Tenancy} {m : Lock} (h : b'.holds key = b.holds key) :
    Sheltered key b b' m := by
  rw [Sheltered, h]
  exact .inr (.inr ⟨Nat.le_refl _, Nat.le_refl _⟩)

/-- A turn that does nothing to the object. -/
theorem pass (h : Sound key b l values) (ht : ¬ b.session.Touches key t) (reply : Reply) :
    Proceeds key b t values (b.session.take t).1 reply := by
  have ha := b.session.take_agrees h.apart.alive ht
  have hforgets : b.session.forgets? key t = none :=
    forgets?_of_not_uses fun hu => ht (.inl hu)
  have hholds : holds key ⟨(b.session.take t).1, b.forgotten⟩ = b.holds key := by
    rw [holds, ha.held]
    rfl
  rw [Proceeds, hforgets]
  refine ⟨l, values, ⟨hholds ▸ h.toAccords.of_agrees ha, h.apart.take t⟩, sheltered_of_eq hholds,
    .of_guards (fun hyes => absurd hyes ht) (fun hu => absurd (.inl hu) ht) ?_⟩
  intro name mode hget
  exact (ha.guards name _ rfl).mpr hget

/-- The hold of a guard that is alive, and the others. -/
theorem holds_of_alive {name : String} {mode : Mode}
    (alive : b.session.guards.get? name = some ⟨key, mode⟩) :
    b.holds key = (b.others key name).gain mode := by
  rw [holds, held_of_alive alive, Holds.gain_add, others]

/-- A use of a guard leaves the others' holds, and its own if it says so. -/
theorem holds_of_use {name : String} {mode : Mode} {use : GuardUse} {r : GuardOutcome} (o : Object)
    (asked : t.step = .guard name use) (alive : b.session.guards.get? name = some ⟨key, mode⟩)
    (hreply : (b.session.step t).2.reply = r.reply) (run : use.run? l values mode = some r) :
    holds key ⟨(b.session.withObject key o).withGuard name (r.mode?.map (⟨key, ·⟩)),
        b.forgotten.gain? (b.session.forgets? key t)⟩ =
      (b.others key name).gain? (use.hold? mode r.mode?) := by
  have hheld := (b.session.withObject key o).held_withGuard key name r.mode?
  have hforgets : b.session.forgets? key t = if use = .forget then some mode else none := by
    apply forgets?_of_use asked alive
    rintro rfl
    exact hreply.trans (GuardUse.run?_forget run).2
  rw [holds, hheld, hforgets]
  cases use with
  | forget =>
      rw [(GuardUse.run?_forget run).1]
      exact Holds.add_gain _ _ _
  | _ => exact Holds.gain?_add _ _ _

/-- A guard comes into being under a name that is not used. -/
theorem holds_withGuard {s : Session} {name : String} {mode : Mode} {o : Object}
    (hunused : b.session.guards.get? name = none)
    (hguards : s.guards = ((b.session.withObject key o).withGuard name (some ⟨key, mode⟩)).guards) :
    holds key ⟨s, b.forgotten⟩ = (b.holds key).gain mode := by
  have hwith := (b.session.withObject key o).held_withGuard key name (some mode)
  have hwithout : b.session.held key = b.session.heldOthers key name := by
    apply held_of_elsewhere
    intro g hget
    rw [hunused] at hget
    cases hget
  rw [holds, holds, held, hguards, ← Holds.gain_add, hwithout]
  exact congrArg (Holds.add · b.forgotten) hwith

/-- The end of a stride of an acquisition that makes a guard. -/
theorem settle (h : Sound key b l values) {pauses : Nat} {name : String} {mode : Mode}
    {went : Stride Object Call Ending} (hstep : ∀ name use, t.step ≠ .guard name use)
    (hnames : Call.Names (some name) went) (hunused : b.session.guards.get? name = none)
    (hapart : (b.session.settle actor key pauses went).1.NamesApart key)
    (hm : went.Meets
      (Call.Pending (.vector l values) (b.holds key) (some name) mode
        (b.session.tallyOthers key actor fun c => c.call.isDraining)
        (b.session.tallyOthers key actor fun c => c.call.hasRaised) pauses)
      (Call.Granted (.vector l values) (b.holds key) (some name) mode
        (b.session.tallyOthers key actor fun c => c.call.isDraining)
        (b.session.tallyOthers key actor fun c => c.call.hasRaised))) :
    let u := b.session.settle actor key pauses went
    Proceeds key b t values u.1 u.2.1 := by
  intro u
  have halive : ∀ name mode, b.session.guards.get? name = some ⟨key, mode⟩ →
      u.1.guards.get? name = some ⟨key, mode⟩ := by
    intro other mode' hget
    refine settle_guards_of_alive hnames ?_ hget
    rintro made ⟨⟩
    exact hunused
  have hunasked : b.session.Uses key t → u.2.1 ≠ .ok :=
    fun hu => absurd hu (not_uses_of_step hstep)
  rw [Proceeds, forgets?_of_step hstep, Holds.gain?_none]
  obtain ⟨call, hp, m, hstate, hstands, hb⟩ | ⟨ending, hf, m, hstate, rfl, hshelter, hb⟩ := hm.cases
  · have hguards : u.1.guards = b.session.guards := by rw [settle_guards, hp]
    have hreply : u.2.1 = .paused pauses := by rw [settle_reply, hp]
    have hholds : holds key ⟨u.1, b.forgotten⟩ = b.holds key := by
      rw [holds, held, hguards]
      rfl
    have hs := h.toAccords.settle_paused actor hp (by rw [hstate]; rfl) ⟨name, mode, hstands⟩ hb
    rw [hstate] at hs
    refine ⟨m, values, ⟨hholds ▸ hs, hapart⟩, sheltered_of_eq hholds, .of_guards ?_ hunasked halive⟩
    intro _ breach
    rw [hreply]
    simp
  · have hguards : u.1.guards = ((b.session.withObject key went.state).withGuard name
        (some ⟨key, mode⟩)).guards := by
      rw [settle_guards, hf]
      rfl
    have hreply : u.2.1 = .ok := by
      rw [settle_reply, hf]
      rfl
    have hholds := holds_withGuard hunused hguards
    have hs := h.toAccords.settle_finished actor pauses hf (by rw [hstate]; rfl) hb
    rw [hstate] at hs
    refine ⟨m, values, ⟨hholds ▸ hs, hapart⟩, hshelter.imp_right .inl,
      .of_guards ?_ hunasked halive⟩
    intro _ breach
    rw [hreply]
    simp

/-- An attempt at the lock keeps the contract. -/
theorem answered_tryAcquire (h : Sound key b l values) (mode : Mode) :
    Operation.Answered (.tryAcquire mode) (b.holds key) ((Instant.tryAcquire mode).run l).1
      ((Instant.tryAcquire mode).run l).2 (b.session.draining key) (b.session.raised key) :=
  Operation.run_answered rfl trivial h.balanced

/-- An attempt at a guard that succeeds. -/
theorem attain (h : Sound key b l values) {name : String} {mode : Mode} {m : Lock}
    (hstep : ∀ name use, t.step ≠ .guard name use)
    (hunused : b.session.guards.get? name = none)
    (hapart : ((b.session.withObject key (.vector m values)).withGuard name
      (some ⟨key, mode⟩)).NamesApart key)
    (granted : l.tryAcquire mode = (m, .ok ())) :
    Proceeds key b t values
      ((b.session.withObject key (.vector m values)).withGuard name (some ⟨key, mode⟩)) .ok := by
  obtain ⟨-, hb, hs⟩ := h.answered_tryAcquire mode
  have hrun : (Instant.tryAcquire mode).run l = (m, .ok) := by
    rw [Instant.run, granted]
    rfl
  rw [hrun, Operation.after_ok] at hb hs
  have hholds : holds key ⟨(b.session.withObject key (.vector m values)).withGuard name
      (some ⟨key, mode⟩), b.forgotten⟩ = (b.holds key).gain mode :=
    holds_withGuard hunused rfl
  have hset : (b.session.withObject key (.vector m values)).Accords key Stopped.MakesGuard
      ((b.holds key).gain mode) (.vector m values) m := h.toAccords.withObject rfl hb
  rw [Proceeds, forgets?_of_step hstep, Holds.gain?_none]
  refine ⟨m, values, ⟨hholds ▸ hset.withGuard name (some ⟨key, mode⟩), hapart⟩, ?_,
    .of_guards (by simp) (fun hu => absurd hu (not_uses_of_step hstep)) ?_⟩
  · rw [Sheltered, hholds]
    exact hs
  · intro other mode' hget
    have hne : other ≠ name := by
      rintro rfl
      rw [hunused] at hget
      cases hget
    rw [withGuard_get?_of_ne _ hne]
    exact hget

/-- An attempt at a guard that fails. -/
theorem miss (h : Sound key b l values) {mode : Mode} {m : Lock} {why : Busy}
    (hstep : ∀ name use, t.step ≠ .guard name use)
    (refused : l.tryAcquire mode = (m, .error why)) :
    Proceeds key b t values (b.session.withObject key (.vector m values)) .declined := by
  obtain ⟨-, hb, -⟩ := h.answered_tryAcquire mode
  have hrun : (Instant.tryAcquire mode).run l = (m, .busy why) := by
    rw [Instant.run, refused]
    rfl
  rw [hrun, Operation.after_of_ne _ _ (by simp)] at hb
  rw [Proceeds, forgets?_of_step hstep, Holds.gain?_none]
  refine ⟨m, values, ⟨h.toAccords.withObject rfl hb, ?_⟩, sheltered_of_eq rfl,
    .of_guards (by simp) (by simp) fun _ _ hget => hget⟩
  exact ⟨h.apart.alive, h.apart.unused, h.apart.unshared⟩

/-- A use of a guard over the object. -/
theorem use (h : Sound key b l values) {name : String} {mode : Mode} {use : GuardUse}
    {r : GuardOutcome} (asked : t.step = .guard name use)
    (alive : b.session.guards.get? name = some ⟨key, mode⟩)
    (hreply : (b.session.step t).2.reply = r.reply)
    (hapart : ((b.session.withObject key (.vector r.lock r.values)).withGuard name
      (r.mode?.map (⟨key, ·⟩))).NamesApart key)
    (run : use.run? l values mode = some r) :
    Proceeds key b t values ((b.session.withObject key (.vector r.lock r.values)).withGuard name
      (r.mode?.map (⟨key, ·⟩))) r.reply := by
  have hb := h.balanced
  rw [holds_of_alive alive] at hb
  have served := GuardUse.run?_served hb run
  have hafter := holds_of_use (.vector r.lock r.values) asked alive hreply run
  rw [Proceeds]
  refine ⟨r.lock, r.values, ⟨?_, hapart⟩, ?_, .of_use served asked alive ?_⟩
  · rw [hafter]
    exact (h.toAccords.withObject rfl served.balanced).withGuard name _
  · rw [Sheltered, hafter, holds_of_alive alive]
    exact served.sheltered
  · cases r.mode? <;> rfl

/-- The resumption of a call on the object. -/
theorem resume (h : Sound key b l values) {number turns : Nat} {c : Stopped}
    {went : Stride Object Call Ending}
    (hget : b.session.stopped.get? actor = some c) (hc : c.object = key)
    (run : Call.goOn (max turns 1) (.pauseAt (.vector l values) c.call) = some went)
    (few : b.session.peak key Stopped.isStarved ⟨actor, number, .resume turns⟩ < 2 ^ 31) :
    let u := b.session.settle actor key (c.pauses + max turns 1) went
    Proceeds key b ⟨actor, number, .resume turns⟩ values u.1 u.2.1 := by
  subst hc
  obtain ⟨name, mode, hop⟩ := h.calls actor c hget rfl
  have htake : b.session.take ⟨actor, number, .resume turns⟩ =
      b.session.settle actor c.object (c.pauses + max turns 1) went :=
    take_goOn number h.object hget run
  have hapart := h.apart.take ⟨actor, number, .resume turns⟩
  rw [htake] at hapart
  have hlater : ∀ went call,
      Call.goOn (max turns 1) (.pauseAt (.vector l values) c.call) = some went →
      went.progress = .paused call →
      call.StandsAt (some name) mode (c.pauses + max turns 1) →
        (b.session.settle actor c.object (c.pauses + max turns 1) went).1.raised c.object
          < 2 ^ 31 := by
    intro went call hgo hp hstands
    rw [← take_goOn number h.object hget hgo]
    apply raised_lt_of_peak few
    intro a c' hget' hc'
    apply Stopped.MakesGuard.isStarved_eq
    rw [Session.step, take_goOn number h.object hget hgo] at hget'
    refine h.calls_settle actor ?_ a c' hget' hc'
    intro call' hp'
    rw [hp] at hp'
    cases hp'
    exact ⟨name, mode, hstands⟩
  obtain ⟨went', run', hm⟩ := h.toAccords.resume_meets hget rfl hop
    (h.toAccords.room_now (fun _ => Stopped.MakesGuard.isStarved_eq) hget rfl few) hlater
  rw [run] at run'
  cases run'
  have hnames : Call.Names (some name) went :=
    Call.names_goOn (s := .pauseAt (.vector l values) c.call) _ hop.guard?_eq run
  exact h.settle (by simp) hnames (h.apart.unused actor c name hget rfl hop.guard?_eq) hapart hm

/-- Every turn that keeps to guards keeps the tenancy sound. -/
theorem take (h : Sound key b l values) (hp : b.session.Concerns key t → t.step.isOnGuards = true)
    (few : b.session.peak key Stopped.isStarved t < 2 ^ 31) :
    Proceeds key b t values (b.session.take t).1 (b.session.take t).2.1 := by
  by_cases ht : b.session.Touches key t
  · have hapart := h.apart.take t
    have hstep : (∀ name use, t.step ≠ .guard name use) → t.step.isOnGuards = true := by
      intro hstep
      obtain ⟨name, use, asked, -⟩ | ⟨hc, -⟩ := ht
      · exact absurd asked (hstep name use)
      · exact hp hc
    have hmoves := b.session.take_moves t
    have hreply : (b.session.step t).2.reply = (b.session.take t).2.1 := rfl
    generalize b.session.take t = u at hmoves hapart hreply ⊢
    cases hmoves with
    | stays reply vain kept =>
        have hforgets : b.session.forgets? key t = none := forgets?_of_reply (hreply ▸ vain)
        rw [Proceeds, hforgets]
        exact ⟨l, values, h, sheltered_of_eq rfl,
          .of_guards (fun _ => kept) (fun _ => vain) fun _ _ hget => hget⟩
    | sets o reply begun asked =>
        obtain ⟨what, asked⟩ | ⟨design, asked⟩ := asked <;>
          simp [asked, Step.isOnGuards] at hstep
    | removes reply log begun asked =>
        obtain ⟨how, asked⟩ := asked
        simp [asked, Step.isOnGuards] at hstep
    | begins went begun asked unguarded names =>
        obtain ⟨what, asked⟩ | ⟨p, there⟩ := asked
        · simp [asked, Step.isOnGuards] at hstep
        · rw [(begun.touches_iff unguarded).mp ht, h.object] at there
          cases there
    | makes name mode l values begun there untaken asked =>
        have hguard : ∀ name use, t.step ≠ .guard name use := by
          intro name use hstep
          rw [hstep] at asked
          cases asked
        obtain rfl := (begun.touches_iff hguard).mp ht
        rw [h.object] at there
        cases there
        exact h.settle hguard (Call.names_acquire (some name) mode _)
          (free_of_not_nameTaken untaken).1 hapart
          (Call.acquire_meets mode (h.balanced_of_free begun.free))
    | obtains name mode l m values begun there untaken asked granted =>
        have hguard : ∀ name use, t.step ≠ .guard name use := by simp [asked]
        obtain rfl := (begun.touches_iff hguard).mp ht
        rw [h.object] at there
        cases there
        exact h.attain hguard (free_of_not_nameTaken untaken).1 hapart granted
    | misses name mode l m values why begun there asked refused =>
        have hguard : ∀ name use, t.step ≠ .guard name use := by simp [asked]
        obtain rfl := (begun.touches_iff hguard).mp ht
        rw [h.object] at there
        cases there
        exact h.miss hguard refused
    | uses name g use l values r begun alive there asked run =>
        have hg : g.object = key := (touches_iff_of_use asked alive).mp ht
        obtain ⟨object, mode⟩ := g
        obtain rfl := hg
        rw [h.object] at there
        cases there
        exact h.use asked alive hreply hapart run
    | resumes turns c o went stopped there asked run =>
        obtain rfl := (touches_iff_of_resume asked stopped).mp ht
        rw [h.object] at there
        cases there
        obtain ⟨actor, number, step⟩ := t
        obtain rfl := asked
        exact h.resume stopped rfl run few
  · exact h.pass ht _

end Sound

/-! ## Whole scripts -/

/-- A turn that keeps to guards and that the barrier has room for. -/
def Admits (key : Nat) (b : Tenancy) (t : Turn) : Prop :=
  (b.session.Concerns key t → t.step.isOnGuards = true) ∧
    b.session.peak key Stopped.isStarved t < 2 ^ 31

/-- Along a script that keeps to guards the tenancy of a fresh lock stays sound
and its holds exclusive, and every turn serves the guards. -/
theorem sound_throughout {s : Session} {script : List Turn}
    (fresh : s.Fresh key (.vector .fresh values)) (onGuards : OnGuards key ⟨s, .none⟩ script)
    (fewReads : FewReads key ⟨s, .none⟩ script) (fewStarved : FewStarved key ⟨s, .none⟩ script) :
    Script.Throughout (next key)
        (fun b => (b.holds key).Exclusive ∧ ∃ l values, Sound key b l values) ⟨s, .none⟩ script ∧
      Script.EveryTurn (next key)
        (fun b t => ∃ l l' values values',
          Sound key b l values ∧ Sound key (b.next key t) l' values' ∧
            b.session.Serves key t (b.session.step t).1 (b.session.step t).2.reply values values')
        ⟨s, .none⟩ script := by
  have admitted : Script.EveryTurn (next key) (Admits key) ⟨s, .none⟩ script :=
    onGuards.and fewStarved
  have hstart : Sound key ⟨s, .none⟩ .fresh values := .of_fresh fresh
  have hnone : (holds key ⟨s, .none⟩).Exclusive := by
    rw [holds, held_of_unguarded fresh.unguarded]
    exact Holds.none_exclusive
  apply (admitted.and fewReads.everyTurn).keeps ⟨hnone, _, _, hstart⟩
  rintro b t ⟨hx, l, values, h⟩ ⟨⟨hguards, hroom⟩, -, hcount⟩
  obtain ⟨m, values', h', hsheltered, hserves⟩ := h.take hguards hroom
  exact ⟨⟨h'.balanced.exclusive hsheltered hx hcount, m, values', h'⟩,
    l, m, values, values', h, h', hserves⟩

end Tenancy

end ReaderWriter
