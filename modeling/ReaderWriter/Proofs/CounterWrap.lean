import ReaderWriter.Proofs.Offset.Session
import ReaderWriter.Proofs.Session.Script

/-!
# A wrap of the counters cannot be observed

Two runs that start with the counters of the readers in different places, but as far
apart, go on alike for ever: turn by turn they are answered the same, and the counters
of the one stay ahead of those of the other by what they were ahead at first. So what
happens when a counter wraps is what happens when it does not.

This holds of every script, with or without discipline: contracts are broken in the one
run where they are in the other. A script must not have the counters printed, and if it
sets them it has to keep the runs apart. A lock that it makes starts at zero in both runs,
so it is not made under a number that has an offset.
-/

namespace ReaderWriter

/-- The second lock is as the first, but its counters are ahead. -/
structure Lock.Leads (k : UInt32) (l m : Lock) : Prop where
  ingress : m.ingress = l.ingress + k
  egress : m.egress = l.egress + k
  barrier : m.barrier = l.barrier
  flag : m.flag = l.flag
  registered : m.registered = l.registered
  isIdle : m.isIdle = l.isIdle

/-- The second object is as the first, but the counters of its lock are ahead. -/
inductive Object.Leads (k : UInt32) (o o' : Object) : Prop
  /-- The data is the same, and so is all of the lock but the counters. -/
  | ofLock (l m : Lock) (inside : o.lock? = some l) (leads : l.Leads k m)
      (rest : o' = o.withLock m)
  /-- There is no lock of ours inside. -/
  | same (inside : o.lock? = none) (rest : o' = o)

/-- The second answer is as the first, but the counters of the object are ahead. -/
structure Answer.Leads (k : UInt32) (x y : Answer) : Prop where
  reply : y.reply = x.reply
  log : y.log = x.log
  object : Option.Rel (Object.Leads k) x.object y.object

/-- The second session is as the first, but the counters of every lock are ahead by the
offset of its object. -/
structure Session.Leads (k : Nat → UInt32) (s s' : Session) : Prop where
  stopped : s'.stopped = s.stopped
  guards : s'.guards = s.guards
  objects : ∀ key, Option.Rel (Object.Leads (k key)) (s.objects.get? key) (s'.objects.get? key)

/-- Two sessions that are run side by side. -/
structure Twins where
  first : Session
  second : Session

/-- Both sessions after a turn. In the second, counters are set further on. -/
def Twins.next (k : Nat → UInt32) (b : Twins) (t : Turn) : Twins :=
  ⟨(b.first.step t).1, (b.second.step (t.ahead k)).1⟩

theorem Lock.leads_ahead (k : UInt32) (l : Lock) : l.Leads k (l.ahead k) :=
  ⟨rfl, rfl, rfl, rfl, l.ahead_registered k, l.ahead_isIdle k⟩

theorem Object.leads_ahead (k : UInt32) (o : Object) : o.Leads k (o.ahead k) := by
  cases o with
  | bare l => exact .ofLock l _ rfl (l.leads_ahead k) rfl
  | vector l values => exact .ofLock l _ rfl (l.leads_ahead k) rfl
  | payload p =>
      obtain ⟨scheme, store⟩ := p
      cases scheme with
      | writerFirst l => exact .ofLock l _ rfl (l.leads_ahead k) rfl
      | _ => exact .same rfl rfl

theorem Object.rel_leads_ahead (k : UInt32) (o? : Option Object) :
    Option.Rel (Object.Leads k) o? (o?.map (Object.ahead k)) := by
  cases o? with
  | none => exact .none
  | some o => exact .some (o.leads_ahead k)

theorem Answer.leads_ahead (k : UInt32) (x : Answer) : x.Leads k (x.ahead k) :=
  ⟨rfl, rfl, Object.rel_leads_ahead k x.object⟩

theorem Session.leads_ahead (k : Nat → UInt32) (s : Session) : s.Leads k (s.ahead k) where
  stopped := rfl
  guards := rfl
  objects key := by
    rw [ahead_get?]
    exact Object.rel_leads_ahead (k key) _

/-- From any session at all and from the same with its counters moved on, every script
that does not look at the counters is answered alike, turn by turn, and after every turn
the sessions are alike, with the counters ahead by what they were ahead at first. -/
theorem wrap_unobservable (k : Nat → UInt32) (s : Session) {script : List Turn}
    (blind : ∀ t ∈ script, t.IsBlind k) :
    Script.Throughout (Twins.next k) (fun b => b.first.Leads k b.second) ⟨s, s.ahead k⟩ script ∧
      Script.EveryTurn (Twins.next k) (fun b t =>
        (b.first.step t).2.Leads (k t.object) (b.second.step (t.ahead k)).2)
        ⟨s, s.ahead k⟩ script := by
  have hblind : Script.EveryTurn (Twins.next k) (fun _ t => t.IsBlind k) ⟨s, s.ahead k⟩ script :=
    .of_mem blind
  obtain ⟨hahead, hanswers⟩ := hblind.keeps
    (I := fun b => b.second = b.first.ahead k)
    (Q := fun b t => (b.first.step t).2.Leads (k t.object) (b.second.step (t.ahead k)).2) rfl <| by
      rintro ⟨first, second⟩ t hsecond ht
      obtain rfl : second = first.ahead k := hsecond
      have hstep := Session.ahead_step k first ht
      refine ⟨congrArg Prod.fst hstep, ?_⟩
      rw [hstep]
      exact Answer.leads_ahead (k t.object) _
  refine ⟨hahead.mono fun b hb => ?_, hanswers⟩
  rw [hb]
  exact Session.leads_ahead k b.first

/-- The counters of the readers are about to wrap, and one reader is in. A writer drains
it, a second reader waits and gets in, and the flag is given back once too often. Then the
counters are set, and the lock is dropped with a reader in it. -/
def lap : List Turn :=
  [⟨0, 0, .waiting (.acquire .write)⟩, ⟨1, 0, .waiting (.acquire .read)⟩,
    ⟨2, 0, .instant (.unlock .read)⟩, ⟨0, 0, .resume 1⟩, ⟨0, 0, .instant (.unlock .write)⟩,
    ⟨1, 0, .resume 1⟩, ⟨0, 0, .instant (.unlock .write)⟩,
    ⟨0, 0, .instant (.preset (some 4294967295) (some 4294967294) none none)⟩,
    ⟨0, 0, .tearDown .drop⟩]

/-- The counters wrap in the first run, and those of the second start beyond the wrap. -/
theorem wrap_unobservable_lap :
    let s : Session := .start (.bare ⟨4294967295, 4294967294, 0, false⟩)
    (∀ t ∈ lap, t.IsBlind fun _ => 3) ∧
      Script.EveryTurn (Twins.next fun _ => 3) (fun b t =>
        (b.first.step t).2.Leads 3 (b.second.step (t.ahead fun _ => 3)).2)
        ⟨s, s.ahead fun _ => 3⟩ lap := by
  intro s
  have blind : ∀ t ∈ lap, t.IsBlind fun _ => 3 := by decide
  exact ⟨blind, (wrap_unobservable (fun _ => 3) s blind).2⟩

end ReaderWriter
