import Mathlib.Data.List.Forall2
import ReaderWriter.Bench
import ReaderWriter.Proofs.Bench.Table
import ReaderWriter.Proofs.RoundAccounting

/-!
# The course of a run

The workers of a round may get to its payload in any order that keeps each worker's accesses
in order, and under the lock of this library they may be stopped in the middle of them. Whatever
comes of it, the round has a report if its payload can be held: it adds a row to what has been
printed, and the rounds after it are played.

So an arena decides nothing but who is served when and how long this takes. All rounds might be
played first, one for each contender, and the course be made from what they have come to.
-/

namespace ReaderWriter

/-- How the payload of a design is guarded. -/
def Payload.Design.scheme : Payload.Design → Scheme
  | .list scheme | .queue scheme _ => scheme

namespace Round

/-- What a payload and the counts have become when the workers of a round are through. -/
inductive Reaches (plan : Plan) (threads : Nat) : Payload → Played → Prop
  /-- The accesses come one after another, in an order that is each worker's own. -/
  | inOrder (p : Payload) {moves : List Move} (schedule : Interleaves plan threads moves) :
      Reaches plan threads p (p.play (moves.map Move.access))
  /-- The workers are a crew: any of them may be stopped while others go on, and the
  round is over when nobody is stopped any more. -/
  | byCrew {key : Nat} {s : Session} {store : Store} {script : List Turn} {q : Payload}
      (crew : Ledger.Crew plan threads key s store script)
      (left : (s.after script).objects.get? key = some (.payload q)) :
      Reaches plan threads ⟨.writerFirst .fresh, store⟩
        ⟨q, Tally.of (Ledger.performed key ⟨s, .none⟩ script)⟩

/-- Whatever an idle payload has come to, the round on it closes. -/
theorem Reaches.closes {plan : Plan} {threads : Nat} {p : Payload} {played : Played}
    (h : Reaches plan threads p played) (hp : p.Idle) (before : UInt16) (elapsed : Nat) :
    ∃ store, Closes p.scheme.name plan threads before elapsed
      (p.scheme.closing (Payload.closingRecord store))
      (close played plan threads before elapsed) := by
  cases h with
  | inOrder p schedule => exact ⟨_, (schedule.accounts hp before elapsed).closes⟩
  | byCrew crew left =>
      obtain ⟨-, q, hleft, hcloses⟩ := closes_of_crew crew before elapsed
      cases left.symm.trans hleft
      exact ⟨_, hcloses⟩

end Round

namespace Bench

variable {m : Type → Type} [Monad m]

/-- Whatever comes of a computation has a property. -/
def Yields {α : Type} (x : m α) (P : α → Prop) : Prop :=
  ∃ y : m { a // P a }, x = Subtype.val <$> y

/-- The rounds of an arena come to what the workers can reach. -/
def Arena.Fair (arena : Arena m) : Prop :=
  ∀ p plan threads, Yields (arena p plan threads) fun o => Round.Reaches plan threads p o.1

/-- Turns taken one after another are a fair way to play. -/
theorem untimed_fair : Arena.Fair untimed := by
  intro p plan threads
  obtain ⟨moves, schedule, hmoves⟩ := Round.exists_interleaves_inTurn plan threads
  have hreaches : Round.Reaches plan threads p (p.play (Round.inTurn plan threads)) := by
    rw [← hmoves]
    exact .inOrder p schedule
  exact ⟨⟨(p.play (Round.inTurn plan threads), 0), hreaches⟩, rfl⟩

section yields

variable [LawfulMonad m] {α β : Type} {x : m α} {P : α → Prop}

theorem Yields.bind_congr (h : Yields x P) {f g : α → m β} (hfg : ∀ a, P a → f a = g a) :
    x >>= f = x >>= g := by
  obtain ⟨y, rfl⟩ := h
  simp only [bind_map_left]
  exact congrArg (y >>= ·) (funext fun a => hfg a.1 a.2)

/-- Computations one after another yield what each of them does. -/
theorem yields_mapM {f : α → m β} {R : α → β → Prop} {l : List α}
    (h : ∀ a ∈ l, Yields (f a) (R a)) : Yields (l.mapM f) (List.Forall₂ R l) := by
  induction l with
  | nil => exact ⟨pure ⟨[], .nil⟩, by simp⟩
  | cons a rest ih =>
      obtain ⟨ha, hrest⟩ := List.forall_mem_cons.mp h
      obtain ⟨y, hy⟩ := ha
      obtain ⟨ys, hys⟩ := ih hrest
      refine ⟨do
        let b ← y
        let bs ← ys
        return ⟨b.1 :: bs.1, .cons b.2 bs.2⟩, ?_⟩
      rw [List.mapM_cons, hy, hys]
      simp

end yields

/-- The payload of a design can be held, and it is new. -/
structure Ready (design : Payload.Design) : Prop where
  fits : design.fits = true
  fresh : ∀ l, design.scheme = .writerFirst l → l = .fresh

/-- Rows for some contenders, all of them with the numbers of the plan taken so often. -/
def Rows (plan : Plan) (threads : Nat) (contenders rows : List String) : Prop :=
  List.Forall₂ (fun contender row =>
    Table.Shows row contender threads (threads * plan.reads) (threads * plan.writes))
    contenders rows

/-- No plan is drawn. -/
def Undrawn (log : List Record) : Prop :=
  ∀ reads writes ratio, Record.planDrawn reads writes ratio ∉ log

theorem undrawn_nil : Undrawn [] :=
  fun _ _ _ h => by cases h

theorem undrawn_append {log log' : List Record} (h : Undrawn log) (h' : Undrawn log') :
    Undrawn (log ++ log') := by
  intro reads writes ratio hmem
  exact (List.mem_append.mp hmem).elim (h _ _ _) (h' _ _ _)

namespace Course

/-- Nothing has gone wrong between two points of a course, and some lines have been printed. -/
structure Gains (p p' : Course) (printed : List String) : Prop where
  fault : p'.fault? = none
  lines : p'.lines = p.lines ++ printed
  log : ∃ records, p'.log = p.log ++ records ∧ Undrawn records

variable {p p' p'' : Course} {printed printed' : List String}

theorem Gains.refl (h : p.fault? = none) : p.Gains p [] :=
  ⟨h, (List.append_nil _).symm, [], (List.append_nil _).symm, undrawn_nil⟩

theorem Gains.trans (h : p.Gains p' printed) (h' : p'.Gains p'' printed') :
    p.Gains p'' (printed ++ printed') := by
  obtain ⟨records, hlog, hundrawn⟩ := h.log
  obtain ⟨records', hlog', hundrawn'⟩ := h'.log
  refine ⟨h'.fault, ?_, records ++ records', ?_, undrawn_append hundrawn hundrawn'⟩
  · rw [h'.lines, h.lines, List.append_assoc]
  · rw [hlog', hlog, List.append_assoc]

theorem gains_print (h : p.fault? = none) (lines : List String) :
    p.Gains (p.print lines) lines :=
  ⟨h, rfl, [], (List.append_nil _).symm, undrawn_nil⟩

/-- A report adds a row, and the records of its round. -/
theorem gains_add {o : Round.Outcome} {r : Report} (h : o.report = .ok r)
    (hlog : Undrawn o.log) : p.Gains (p.add o) [Table.ofReport r] := by
  rw [add, h]
  exact ⟨rfl, rfl, o.log, rfl, hlog⟩

end Course

variable {arena : Arena m} {plan : Plan} {threads : Nat}
variable {design : Payload.Design} {designs : List Payload.Design}

theorem Ready.build? (h : Ready design) : design.build? = some design.payload := by
  rw [Payload.Design.build?, if_pos h.fits]

theorem idle_payload (hfresh : ∀ l, design.scheme = .writerFirst l → l = .fresh) :
    design.payload.Idle := by
  cases design with
  | list scheme => exact Round.idle_of_fresh hfresh _
  | queue scheme length => exact Round.idle_of_fresh hfresh _

theorem scheme_payload (design : Payload.Design) : design.payload.scheme = design.scheme := by
  cases design <;> rfl

theorem undrawn_closing (scheme : Scheme) (store : Store) :
    Undrawn (scheme.closing (Payload.closingRecord store)) := by
  intro reads writes ratio
  cases scheme <;> cases store <;> simp [Scheme.closing, Payload.closingRecord]

theorem undrawn_opening (contender : String) (plan : Plan) (threads : Nat) (before : UInt16) :
    Undrawn (Round.opening contender plan threads before) := by
  intro reads writes ratio
  simp [Round.opening, Workers.expect]

/-- What a round comes to, added to a course. -/
def Course.play (plan : Plan) (threads : Nat) (p : Course) (o : Played × Nat) : Course :=
  p.add (Round.close o.1 plan threads p.workers o.2)

/-- A round has a report, and a row for it is printed. -/
theorem gains_play (hready : Ready design) (hthreads : threads ≠ 0) {o : Played × Nat}
    (ho : Round.Reaches plan threads design.payload o.1) (p : Course) :
    ∃ row, Table.Shows row design.scheme.name threads (threads * plan.reads)
        (threads * plan.writes) ∧
      p.Gains (p.play plan threads o) [row] := by
  obtain ⟨store, hcloses⟩ := ho.closes (idle_payload hready.fresh) p.workers o.2
  have hreport := hcloses.report
  rw [if_neg hthreads, scheme_payload] at hreport
  refine ⟨_, ?_, Course.gains_add hreport ?_⟩
  · exact Table.shows_ofReport (Table.solid_name design.scheme)
  · rw [hcloses.log]
    exact undrawn_append (undrawn_opening _ _ _ _) (undrawn_closing _ _)

/-- What the rounds on some designs have come to. -/
def Outcomes (plan : Plan) (threads : Nat) (designs : List Payload.Design)
    (outcomes : List (Played × Nat)) : Prop :=
  List.Forall₂ (fun design o => Round.Reaches plan threads design.payload o.1) designs outcomes

/-- The rounds of a section print a row for each of its contenders. -/
theorem gains_rounds (hthreads : threads ≠ 0) (hready : ∀ design ∈ designs, Ready design)
    {outcomes : List (Played × Nat)} (ho : Outcomes plan threads designs outcomes) {p : Course}
    (hp : p.fault? = none) :
    ∃ rows, Rows plan threads (designs.map fun design => design.scheme.name) rows ∧
      p.Gains (outcomes.foldl (Course.play plan threads) p) rows := by
  induction ho generalizing p with
  | nil => exact ⟨[], .nil, .refl hp⟩
  | cons hfirst _ ih =>
      obtain ⟨hdesign, hrest⟩ := List.forall_mem_cons.mp hready
      obtain ⟨row, hrow, hgains⟩ := gains_play hdesign hthreads hfirst p
      obtain ⟨rows, hrows, hmore⟩ := ih hrest hgains.fault
      exact ⟨row :: rows, .cons hrow hrows, hgains.trans hmore⟩

/-- The rounds of a section may be played first and their course be made from that. -/
theorem playRounds_eq [LawfulMonad m] (plan : Plan) (hfair : arena.Fair) (hthreads : threads ≠ 0)
    (hready : ∀ design ∈ designs, Ready design) {p : Course} (hp : p.fault? = none) :
    playRounds arena plan threads designs p = (fun os => os.foldl (Course.play plan threads) p) <$>
      designs.mapM fun design => arena design.payload plan threads := by
  induction designs generalizing p with
  | nil => simp [playRounds]
  | cons design rest ih =>
      obtain ⟨hdesign, hrest⟩ := List.forall_mem_cons.mp hready
      rw [playRounds, if_neg (by rw [hp]; decide), hdesign.build?, List.mapM_cons, map_bind]
      dsimp only
      apply (hfair design.payload plan threads).bind_congr
      intro o ho
      obtain ⟨_, _, hgains⟩ := gains_play hdesign hthreads ho p
      simp only [bind_pure_comp, Functor.map_map, List.foldl_cons]
      exact ih hrest hgains.fault

/-- What the sections print, one after another: each of them its header, and a row for every
contender. -/
def Sections (plan : Plan) (threads : Nat) :
    List (String × List Payload.Design) → List String → Prop
  | [], lines => lines = []
  | (title, designs) :: rest, lines => ∃ rows others,
      lines = Table.header title ++ rows ++ others ∧
        Rows plan threads (designs.map fun design => design.scheme.name) rows ∧
          Sections plan threads rest others

/-- What a section comes to, added to a course. -/
def Course.playSection (plan : Plan) (threads : Nat) (p : Course)
    (s : (String × List Payload.Design) × List (Played × Nat)) : Course :=
  s.2.foldl (Course.play plan threads) (p.print (Table.header s.1.1))

variable {sections : List (String × List Payload.Design)}

theorem gains_sections (hthreads : threads ≠ 0)
    (hready : ∀ s ∈ sections, ∀ design ∈ s.2, Ready design)
    {outcomes : List (List (Played × Nat))}
    (ho : List.Forall₂ (fun s os => Outcomes plan threads s.2 os) sections outcomes) {p : Course}
    (hp : p.fault? = none) :
    ∃ lines, Sections plan threads sections lines ∧
      p.Gains ((sections.zip outcomes).foldl (Course.playSection plan threads) p) lines := by
  induction ho generalizing p with
  | nil => exact ⟨[], rfl, .refl hp⟩
  | @cons s os _ _ hfirst _ ih =>
      obtain ⟨hdesigns, hrest⟩ := List.forall_mem_cons.mp hready
      have hheader := Course.gains_print hp (Table.header s.1)
      obtain ⟨rows, hrows, hgains⟩ := gains_rounds hthreads hdesigns hfirst hheader.fault
      obtain ⟨others, hothers, hmore⟩ := ih hrest hgains.fault
      exact ⟨_, ⟨rows, others, rfl, hrows, hothers⟩, (hheader.trans hgains).trans hmore⟩

theorem playSections_eq [LawfulMonad m] (plan : Plan) (hfair : arena.Fair)
    (hthreads : threads ≠ 0) (hready : ∀ s ∈ sections, ∀ design ∈ s.2, Ready design) {p : Course}
    (hp : p.fault? = none) :
    playSections arena plan threads sections p =
      (fun os => (sections.zip os).foldl (Course.playSection plan threads) p) <$>
        sections.mapM fun s => s.2.mapM fun design => arena design.payload plan threads := by
  induction sections generalizing p with
  | nil => simp [playSections]
  | cons s rest ih =>
      obtain ⟨title, designs⟩ := s
      obtain ⟨hdesigns, hrest⟩ := List.forall_mem_cons.mp hready
      have hheader := Course.gains_print hp (Table.header title)
      have hyields : Yields (designs.mapM fun design => arena design.payload plan threads)
          (Outcomes plan threads designs) :=
        yields_mapM fun design _ => hfair design.payload plan threads
      rw [playSections, if_neg (by rw [hp]; decide),
        playRounds_eq plan hfair hthreads hdesigns hheader.fault, bind_map_left, List.mapM_cons,
        map_bind]
      apply hyields.bind_congr
      intro os hos
      obtain ⟨_, _, hgains⟩ := gains_rounds hthreads hdesigns hos hheader.fault
      simp only [bind_pure_comp, Functor.map_map, List.zip_cons_cons, List.foldl_cons]
      exact ih hrest hgains.fault

end Bench

end ReaderWriter
