import ReaderWriter.Proofs.Session.Resumption
import ReaderWriter.Proofs.Session.Ledger

/-!
# Accounts of a lock

The words of a lock are accounted for by the holds that are outstanding and by
the calls that are stopped on it: a stopped call owns the flag if it drains the
readers, and it has a share in the barrier if it has raised it. Nothing else is
ever left behind.

The accounts are kept by every turn of a disciplined script. A turn moves the
stakes of its own actor only, so the stakes of all others enter the proofs as
numbers that stay the same, and each operation is met where its contract is.
-/

namespace ReaderWriter

/-! ## What a stopped call has at stake -/

/-- The access owns the flag and waits for readers to leave. -/
def AccessWait.isDraining : AccessWait → Bool
  | .putting _ place | .taking place => place.isDrain
  | .looking _ => false

/-- The access has raised the barrier. -/
def AccessWait.hasRaised : AccessWait → Bool
  | .looking place => place.raised
  | .putting _ _ | .taking _ => false

/-- Where the access in hand stands. -/
def PayloadCall.place : PayloadCall → AccessWait
  | .access place => place
  | .walk _ _ w => w.place

namespace Call

/-- The call owns the flag and waits for readers to leave. -/
def isDraining : Call → Bool
  | .onLock (.write _ place) => place.isDrain
  | .onLock _ => false
  | .onPayload call => call.place.isDraining

/-- The call has raised the barrier. -/
def hasRaised : Call → Bool
  | .onLock (.read _ place) => place.raised
  | .onLock _ => false
  | .onPayload call => call.place.hasRaised

end Call

/-- The call is an acquisition in the given mode, for the guard it will make or
for none, and its place is that of the pause number `p`. -/
def Call.StandsAt (guard? : Option String) (mode : Mode) (p : Nat) (call : Call) : Prop :=
  match mode with
  | .read => 0 < p ∧ call = .onLock (.read guard? (.standing p))
  | .write => ∃ place, call = .onLock (.write guard? place)

/-- A reader's call has raised the barrier from the second pause past its
patience on. -/
theorem Call.StandsAt.isStarved_eq {c : Stopped} {guard? : Option String} {mode : Mode}
    (h : c.call.StandsAt guard? mode c.pauses) : c.isStarved = c.call.hasRaised := by
  cases mode with
  | read =>
      rw [Stopped.isStarved, h.2]
      rfl
  | write =>
      obtain ⟨place, hcall⟩ := h
      rw [Stopped.isStarved, hcall]
      rfl

/-- The operation of a call that is an acquisition. -/
theorem Call.StandsAt.ofCall?_eq {call : Call} {guard? : Option String} {mode : Mode} {p : Nat}
    (h : call.StandsAt guard? mode p) : Operation.ofCall? call = some (.acquire mode) := by
  cases mode with
  | read => rw [h.2, Operation.ofCall?]
  | write =>
      obtain ⟨place, hcall⟩ := h
      rw [hcall, Operation.ofCall?]

/-- The call is in an operation of the lock. -/
def Stopped.InOperation (c : Stopped) : Prop :=
  ∃ mode, c.call.StandsAt none mode c.pauses

/-- The call owns the flag and waits for readers to leave. -/
def Stopped.drains (c : Stopped) : Bool :=
  c.call.isDraining

/-- The call is a reader's. -/
def Stopped.reads (c : Stopped) : Bool :=
  Operation.ofCall? c.call = some (.acquire .read)

theorem Stopped.InOperation.isStarved_eq {c : Stopped} (h : c.InOperation) :
    c.isStarved = c.call.hasRaised := by
  obtain ⟨mode, h⟩ := h
  exact h.isStarved_eq

namespace Session

/-- The stopped calls that own the flag. -/
def draining (s : Session) (key : Nat) : Nat :=
  s.tally key fun c => c.call.isDraining

/-- The stopped calls that have raised the barrier. -/
def raised (s : Session) (key : Nat) : Nat :=
  s.tally key fun c => c.call.hasRaised

/-- The stopped readers that have returned from the first pause past their patience. -/
def starved (s : Session) (key : Nat) : Nat :=
  s.tally key Stopped.isStarved

/-- The calls of all actors but one. -/
def tallyOthers (s : Session) (key actor : Nat) (p : Stopped → Bool) : Nat :=
  (s.stopped.erase actor).count fun c => c.object == key && p c

variable {s : Session} {key actor pauses : Nat} {p : Stopped → Bool}

theorem tally_of_free (h : s.stopped.get? actor = none) :
    s.tally key p = s.tallyOthers key actor p := by
  rw [tally, Registry.count_eq_count_erase_add _ _ actor, h]
  rfl

theorem tally_of_stopped {c : Stopped} (h : s.stopped.get? actor = some c)
    (hc : c.object = key) : s.tally key p = s.tallyOthers key actor p + (p c).toNat := by
  rw [tally, Registry.count_eq_count_erase_add _ _ actor, h, Registry.weight_some, hc]
  simp [tallyOthers]

/-- The other calls with a property leave room for a stopped call. -/
theorem tallyOthers_lt_waiting {c : Stopped} (h : s.stopped.get? actor = some c)
    (p : Stopped → Bool) : s.tallyOthers c.object actor p < s.waiting c.object := by
  have hothers : s.tallyOthers c.object actor p ≤ s.tallyOthers c.object actor fun _ => true :=
    tally_le_waiting { s with stopped := s.stopped.erase actor } c.object p
  rw [waiting, tally_of_stopped h rfl]
  exact Nat.lt_succ_of_le hothers

/-- At no time of a turn are more readers starved than calls are stopped. -/
theorem peak_le_waiting (s : Session) (key : Nat) (t : Turn) :
    s.peak key Stopped.isStarved t ≤ max (s.waiting key) ((s.step t).1.waiting key) := by
  have hbefore : s.tally key Stopped.isStarved + (s.startles key t).toNat ≤ s.waiting key := by
    cases hs : s.startles key t with
    | false => exact s.tally_le_waiting key _
    | true =>
        obtain ⟨actor, number, step⟩ := t
        cases step with
        | resume turns =>
            obtain ⟨c, hget, hc⟩ := (Option.any_eq_true _ _).mp hs
            rw [Bool.and_eq_true, beq_iff_eq] at hc
            obtain ⟨rfl, hlosing⟩ := hc
            have hcalm := Stopped.isStarved_of_isLosingPatience hlosing
            rw [tally_of_stopped hget rfl, hcalm]
            exact tallyOthers_lt_waiting hget _
        | _ => cases hs
  have hafter := (s.step t).1.tally_le_waiting key Stopped.isStarved
  rw [peak]
  omega

theorem tally_settle (s : Session) (actor key pauses : Nat) (t : Stride Object Call Ending)
    (p : Stopped → Bool) : (s.settle actor key pauses t).1.tally key p =
      s.tallyOthers key actor p + match t.progress with
        | .paused call => (p ⟨key, pauses, call⟩).toNat
        | _ => 0 := by
  rw [tally, settle_stopped]
  cases t.progress with
  | paused call => simp [Registry.count_insert, tallyOthers]
  | finished ending => rfl
  | violated breach => rfl

/-- Properties that agree on the calls on an object count the same. -/
theorem tally_congr {q : Stopped → Bool}
    (h : ∀ actor c, s.stopped.get? actor = some c → c.object = key → p c = q c) :
    s.tally key p = s.tally key q := by
  refine List.countP_congr fun e he => ?_
  by_cases hk : e.2.object = key
  · dsimp only
    rw [h e.1 e.2 (Registry.get?_of_mem he) hk]
  · simp [hk]

/-- Calls that have raised the barrier just if they are starved stay few if the
starved are. -/
theorem raised_lt_of_peak {t : Turn} (few : s.peak key Stopped.isStarved t < 2 ^ 31)
    (hcalls : ∀ a c, (s.step t).1.stopped.get? a = some c → c.object = key →
      c.isStarved = c.call.hasRaised) : (s.step t).1.raised key < 2 ^ 31 := by
  have hsame : (s.step t).1.raised key = (s.step t).1.starved key :=
    tally_congr fun a c hget hc => (hcalls a c hget hc).symm
  rw [hsame]
  exact (Nat.max_lt.mp few).2

theorem tally_eq_zero (h : ∀ actor c, s.stopped.get? actor = some c → c.object ≠ key) :
    s.tally key p = 0 :=
  Registry.count_eq_zero fun actor c hget => by simp [h actor c hget]

theorem tally_pos_of_stands (h : s.Stands key actor p) : 0 < s.tally key p := by
  obtain ⟨c, hget, hc, hp⟩ := h
  rw [tally_of_stopped hget hc, hp]
  exact Nat.succ_pos _

theorem tally_eq_zero_of_stands (h : ∀ a, ¬ s.Stands key a p) : s.tally key p = 0 := by
  apply Registry.count_eq_zero
  intro actor c hget
  by_cases hc : c.object = key
  · have hp : p c = false := Bool.not_eq_true _ ▸ fun hp => h actor ⟨c, hget, hc, hp⟩
    simp [hp]
  · simp [hc]

end Session

/-! ## Strides of operations on an object -/

namespace Call

variable {o : Object} {l : Lock} {readers owners raisers : Nat} {guard? : Option String}

/-- An acquisition pauses with the holds as they were, and with its own stake
added to those of the other calls. -/
def Pending (o : Object) (h : Holds) (guard? : Option String) (mode : Mode)
    (owners raisers p : Nat) (o' : Object) (call : Call) : Prop :=
  ∃ m, o' = o.withLock m ∧ call.StandsAt guard? mode p ∧
    m.Balanced h.reads (h.writes + (owners + call.isDraining.toNat))
      (raisers + call.hasRaised.toNat)

/-- An acquisition ends with one more hold, granted while the flag was down or
nobody was registered. -/
def Granted (o : Object) (h : Holds) (guard? : Option String) (mode : Mode)
    (owners raisers : Nat) (o' : Object) (ending : Ending) : Prop :=
  ∃ m, o' = o.withLock m ∧ ending = .ofHold guard? mode ∧ (m.flag = false ∨ m.isEmpty = true) ∧
    m.Balanced (h.gain mode).reads ((h.gain mode).writes + owners) raisers

variable {h : Holds}

/-- The first stride of an acquisition. -/
theorem acquire_meets (mode : Mode) (hb : l.Balanced h.reads (h.writes + owners) raisers) :
    (strideOnLock o (LockCall.acquire guard? mode l)).Meets
      (Pending o h guard? mode owners raisers 1) (Granted o h guard? mode owners raisers) := by
  rw [meets_strideOnLock]
  cases mode with
  | read =>
      rw [LockCall.acquire, Stride.Meets.relabel_iff]
      refine hb.read.mono ?_ ?_
      · rintro m place ⟨rfl, -, hm⟩
        exact ⟨m, rfl, ⟨Nat.one_pos, rfl⟩, hm⟩
      · rintro m - ⟨hf, hm⟩
        exact ⟨m, rfl, rfl, .inl hf, hm⟩
  | write =>
      rw [LockCall.acquire, Stride.Meets.relabel_iff]
      refine hb.write.mono ?_ ?_
      · intro m place hm
        exact ⟨m, rfl, ⟨place, rfl⟩, Nat.add_assoc _ _ _ ▸ hm⟩
      · rintro m - ⟨he, hm⟩
        exact ⟨m, rfl, rfl, .inr he, Nat.add_right_comm _ _ _ ▸ hm⟩

/-- A stopped writer goes on for at least one stride. -/
theorem goOn_write_meets (turns p : Nat) {place : WriteWait} (hl : o.lock? = some l)
    (hb : l.Balanced h.reads (h.writes + (owners + place.isDrain.toNat)) raisers) :
    ∃ t, goOn (turns + 1) (.pauseAt o (.onLock (.write guard? place))) = some t ∧
      t.Meets (Pending o h guard? .write owners raisers p)
        (Granted o h guard? .write owners raisers) := by
  refine ⟨_, goOn_write turns hl, ?_⟩
  rw [meets_strideOnLock, LockCall.resume, Stride.Meets.relabel_iff]
  rw [← Nat.add_assoc] at hb
  refine hb.resumeWrite.mono ?_ ?_
  · intro m place' hm
    exact ⟨m, rfl, ⟨place', rfl⟩, Nat.add_assoc _ _ _ ▸ hm⟩
  · rintro m - ⟨he, hm⟩
    exact ⟨m, rfl, rfl, .inr he, Nat.add_right_comm _ _ _ ▸ hm⟩

/-- A stopped reader goes on for at least one stride. If the flag is down it
gets in at once, and else it stays in its spin for all of them. -/
theorem goOn_read_meets (turns : Nat) {p : Nat} (hl : o.lock? = some l) (hp : 0 < p)
    (hb : l.Balanced h.reads (h.writes + owners) (raisers + (ReadWait.standing p).raised.toNat))
    (now : p = Patience.limit.toNat + 1 → raisers + 1 < 2 ^ 31)
    (later : ∀ t call,
      goOn (turns + 1) (.pauseAt o (.onLock (.read guard? (.standing p)))) = some t →
      t.progress = .paused call → call.StandsAt guard? .read (p + (turns + 1)) →
        raisers + call.hasRaised.toNat < 2 ^ 31) :
    ∃ t, goOn (turns + 1) (.pauseAt o (.onLock (.read guard? (.standing p)))) = some t ∧
      t.Meets (Pending o h guard? .read owners raisers (p + (turns + 1)))
        (Granted o h guard? .read owners raisers) := by
  -- Nobody else moves during the turn, so the flag is at every stride what it is at the first.
  cases hf : l.flag with
  | true =>
      have hgo := goOn_read_of_flag guard? (turns + 1) hl hf hp
      have hstands : StandsAt guard? .read (p + (turns + 1))
          (.onLock (.read guard? (.standing (p + (turns + 1))))) := ⟨by omega, rfl⟩
      have hroom := later _ _ hgo rfl hstands
      exact ⟨_, hgo, _, rfl, hstands, hb.run_between (by omega) hroom⟩
  | false =>
      refine ⟨_, goOn_read_of_not_flag turns hl hf, ?_⟩
      rw [meets_strideOnLock, LockCall.resume, Stride.Meets.relabel_iff]
      refine (hb.resume fun hs => now ((ReadWait.isStarving_standing hp).mp hs)).mono ?_ ?_
      · rintro m place ⟨-, -, hflag, -⟩
        rw [hf] at hflag
        cases hflag
      · rintro m - ⟨hflag, -, hm⟩
        exact ⟨m, rfl, rfl, .inl hflag, hm⟩

end Call

/-! ## Sessions in accord with holds -/

namespace Session

/-- The words of the lock of object `key` are balanced against the holds and the
stakes of the calls that are stopped on it, and all these calls satisfy `P`. -/
structure Accords (key : Nat) (P : Stopped → Prop) (s : Session) (h : Holds) (o : Object)
    (l : Lock) : Prop where
  object : s.objects.get? key = some o
  lock : o.lock? = some l
  calls : ∀ actor c, s.stopped.get? actor = some c → c.object = key → P c
  balanced : l.Balanced h.reads (h.writes + s.draining key) (s.raised key)

namespace Accords

variable {s : Session} {key actor : Nat} {P : Stopped → Prop} {h h' : Holds} {o : Object}
variable {l m : Lock} {went : Stride Object Call Ending}

theorem of_agrees {s' : Session} (hs : s.Accords key P h o l) (ha : s.Agrees key s') :
    s'.Accords key P h o l where
  object := ha.object.trans hs.object
  lock := hs.lock
  calls actor c hget hc := hs.calls actor c ((ha.stopped actor c hc).mp hget) hc
  balanced := by
    rw [draining, raised, ha.tally, ha.tally]
    exact hs.balanced

/-- The object is set, with its lock balanced against other holds. -/
theorem withObject {o' : Object} (hs : s.Accords key P h o l) (hl : o'.lock? = some m)
    (hb : m.Balanced h'.reads (h'.writes + s.draining key) (s.raised key)) :
    (s.withObject key o').Accords key P h' o' m where
  object := Registry.get?_insert_self _ _ _
  lock := hl
  calls := hs.calls
  balanced := hb

/-- Guards are no part of the accounts. -/
theorem withGuard (hs : s.Accords key P h o l) (name : String) (guard? : Option Guard) :
    (s.withGuard name guard?).Accords key P h o l := by
  obtain ⟨object, lock, calls, balanced⟩ := hs
  cases guard? with
  | none => exact ⟨object, lock, calls, balanced⟩
  | some g => exact ⟨object, lock, calls, balanced⟩

theorem raised_eq_starved (hs : s.Accords key P h o l)
    (hP : ∀ c, P c → c.isStarved = c.call.hasRaised) : s.raised key = s.starved key :=
  tally_congr fun actor c hget hc => (hP c (hs.calls actor c hget hc)).symm

/-- A reader whose patience ends is counted among the starved at once. -/
theorem room_now {number turns : Nat} {c : Stopped} (hs : s.Accords key P h o l)
    (hP : ∀ c, P c → c.isStarved = c.call.hasRaised)
    (hget : s.stopped.get? actor = some c) (hc : c.object = key)
    (few : s.peak key Stopped.isStarved ⟨actor, number, .resume turns⟩ < 2 ^ 31)
    (hlosing : c.isLosingPatience = true) : s.raised key + 1 < 2 ^ 31 := by
  have hstartles : s.startles key ⟨actor, number, .resume turns⟩ = true := by
    simp [startles, hget, hc, hlosing]
  have hbefore := (Nat.max_lt.mp few).1
  rw [hstartles] at hbefore
  rw [hs.raised_eq_starved hP]
  exact hbefore

/-- After a stride the calls of all others are those from before. -/
theorem calls_settle (hs : s.Accords key P h o l) (actor : Nat) {pauses : Nat}
    (hpaused : ∀ call, went.progress = .paused call → P ⟨key, pauses, call⟩) (a : Nat) (c : Stopped)
    (hget : (s.settle actor key pauses went).1.stopped.get? a = some c)
    (hc : c.object = key) : P c := by
  by_cases ha : a = actor
  · subst ha
    rw [settle_get?_self] at hget
    split at hget
    · next call hp =>
        cases hget
        exact hpaused call hp
    · cases hget
  · rw [settle_get?_of_ne _ ha] at hget
    exact hs.calls a c hget hc

/-- A stride that pauses adds the stake of its own call to those of the others. -/
theorem settle_paused (hs : s.Accords key P h o l) (actor : Nat) {pauses : Nat} {call : Call}
    (hp : went.progress = .paused call) (hl : went.state.lock? = some m)
    (hcall : P ⟨key, pauses, call⟩)
    (hb : m.Balanced h'.reads
      (h'.writes + ((s.tallyOthers key actor fun c => c.call.isDraining) + call.isDraining.toNat))
      ((s.tallyOthers key actor fun c => c.call.hasRaised) + call.hasRaised.toNat)) :
    (s.settle actor key pauses went).1.Accords key P h' went.state m where
  object := by rw [settle_objects, Registry.get?_insert_self]
  lock := hl
  calls := hs.calls_settle actor fun call' hp' => by
    rw [hp] at hp'
    cases hp'
    exact hcall
  balanced := by
    rw [draining, raised, tally_settle, tally_settle, hp]
    exact hb

/-- A stride that ends its call leaves the stakes of the others. -/
theorem settle_finished (hs : s.Accords key P h o l) (actor pauses : Nat) {ending : Ending}
    (hf : went.progress = .finished ending) (hl : went.state.lock? = some m)
    (hb : m.Balanced h'.reads
      (h'.writes + s.tallyOthers key actor fun c => c.call.isDraining)
      (s.tallyOthers key actor fun c => c.call.hasRaised)) :
    (s.settle actor key pauses went).1.Accords key P h' went.state m where
  object := by rw [settle_objects, Registry.get?_insert_self]
  lock := hl
  calls := hs.calls_settle actor fun call hp => by
    rw [hf] at hp
    cases hp
  balanced := by
    rw [draining, raised, tally_settle, tally_settle, hf]
    exact hb

/-- The balance without the stakes of an actor that is not stopped. -/
theorem balanced_of_free (hs : s.Accords key P h o l) (hfree : s.stopped.get? actor = none) :
    l.Balanced h.reads (h.writes + s.tallyOthers key actor fun c => c.call.isDraining)
      (s.tallyOthers key actor fun c => c.call.hasRaised) := by
  rw [← tally_of_free hfree, ← tally_of_free hfree]
  exact hs.balanced

/-- The balance with the stakes of a stopped actor apart. -/
theorem balanced_of_stopped {c : Stopped} (hs : s.Accords key P h o l)
    (hget : s.stopped.get? actor = some c) (hc : c.object = key) :
    l.Balanced h.reads
      (h.writes +
        ((s.tallyOthers key actor fun c => c.call.isDraining) + c.call.isDraining.toNat))
      ((s.tallyOthers key actor fun c => c.call.hasRaised) + c.call.hasRaised.toNat) := by
  have hb := hs.balanced
  rw [draining, raised, tally_of_stopped hget hc, tally_of_stopped hget hc] at hb
  exact hb

/-- Where no call is stopped, the words show the holds and nothing else. -/
theorem balanced_of_quiet (hs : s.Accords key P h o l)
    (hq : ∀ actor c, s.stopped.get? actor = some c → c.object ≠ key) :
    l.Balanced h.reads h.writes 0 := by
  have hb := hs.balanced
  rw [draining, raised, tally_eq_zero hq, tally_eq_zero hq] at hb
  exact hb

/-- The strides of a resumed acquisition. A reader whose patience ends needs
room on the barrier. -/
theorem resume_meets {turns : Nat} {c : Stopped} {guard? : Option String} {mode : Mode}
    (hs : s.Accords key P h o l) (hget : s.stopped.get? actor = some c) (hc : c.object = key)
    (hop : c.call.StandsAt guard? mode c.pauses)
    (now : c.isLosingPatience = true → s.raised key + 1 < 2 ^ 31)
    (later : ∀ went call, Call.goOn (max turns 1) (.pauseAt o c.call) = some went →
      went.progress = .paused call → call.StandsAt guard? mode (c.pauses + max turns 1) →
        (s.settle actor key (c.pauses + max turns 1) went).1.raised key < 2 ^ 31) :
    ∃ went, Call.goOn (max turns 1) (.pauseAt o c.call) = some went ∧
      went.Meets
        (Call.Pending o h guard? mode (s.tallyOthers key actor fun c => c.call.isDraining)
          (s.tallyOthers key actor fun c => c.call.hasRaised) (c.pauses + max turns 1))
        (Call.Granted o h guard? mode (s.tallyOthers key actor fun c => c.call.isDraining)
          (s.tallyOthers key actor fun c => c.call.hasRaised)) := by
  have hb := hs.balanced_of_stopped hget hc
  obtain ⟨n, hn⟩ := Call.exists_turns turns
  cases mode with
  | write =>
      obtain ⟨place, hcall⟩ := hop
      rw [hcall] at hb ⊢
      rw [hn]
      exact Call.goOn_write_meets n _ hs.lock hb
  | read =>
      obtain ⟨hpos, hcall⟩ := hop
      have hnow : c.pauses = Patience.limit.toNat + 1 →
          (s.tallyOthers key actor fun c => c.call.hasRaised) + 1 < 2 ^ 31 := by
        intro hp
        have hlosing : c.isLosingPatience = true := by
          rw [Stopped.isLosingPatience, hcall]
          exact decide_eq_true hp
        have hroom := now hlosing
        rw [raised, tally_of_stopped hget hc] at hroom
        omega
      have hlater : ∀ went call, Call.goOn (max turns 1) (.pauseAt o c.call) = some went →
          went.progress = .paused call → call.StandsAt guard? .read (c.pauses + max turns 1) →
          (s.tallyOthers key actor fun c => c.call.hasRaised) + call.hasRaised.toNat < 2 ^ 31 := by
        intro went call hgo hp hstands
        have hroom := later went call hgo hp hstands
        rw [raised, tally_settle, hp] at hroom
        exact hroom
      rw [hn, hcall] at hlater
      rw [hcall] at hb
      rw [hn, hcall]
      exact Call.goOn_read_meets n hs.lock hpos hb hnow hlater

end Accords

end Session

end ReaderWriter
