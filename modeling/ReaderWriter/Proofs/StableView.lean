import ReaderWriter.Proofs.Guard.Soundness

/-!
# Guards give a stable view of the data

Whoever has a guard over a vector sees it as if it were their own. While a guard
for reading is alive the vector stays what it is, through upgrades that fail;
while a guard for writing is alive it is the only one, and the vector changes by
nothing but pushes and pops through it. A guard that is upgraded or downgraded
hands on what it saw last.

All this holds along every script that keeps to guards, however it interleaves
the calls that are stopped and whatever it does to other objects.
-/

namespace ReaderWriter

namespace Session

/-- The data of an object that is a vector. -/
def data? (s : Session) (key : Nat) : Option (List Int) :=
  match s.objects.get? key with
  | some (.vector _ values) => some values
  | _ => none

/-- A guard for writing over the object is the only guard over it. -/
def LoneWriter (key : Nat) (s : Session) : Prop :=
  ∀ name, s.guards.get? name = some ⟨key, .write⟩ →
    ∀ other g, s.guards.get? other = some g → g.object = key → other = name

/-- The guard is one for reading over the object, and `view` is the data. -/
def Sees (key : Nat) (name : String) (view : List Int) (s : Session) : Prop :=
  s.guards.get? name = some ⟨key, .read⟩ ∧ s.data? key = some view

/-- If the turn is a get through the guard it answers `view`. Only a get that is a
step on another object, or of an actor that is stopped, may be refused. -/
def Answers (key : Nat) (name : String) (view : List Int) (s : Session) (t : Turn) : Prop :=
  t.step = .guard name .get → (s.step t).2.reply = .numbers view ∨
    ¬ s.Concerns key t ∧ ∃ why, (s.step t).2.reply = .refused why

/-- What a turn does to the data of an object, from `values` to `values'`, and to
the guards over it. -/
structure Steady (key : Nat) (s : Session) (t : Turn) (values values' : List Int) : Prop where
  before : s.data? key = some values
  after : (s.step t).1.data? key = some values'
  /-- The data changes only by a push or a pop through a guard for writing. -/
  data : values' = values ∨ ∃ name use, t.step = .guard name use ∧
    s.guards.get? name = some ⟨key, .write⟩ ∧ use.Edits values values'
  /-- While a guard for reading is alive the data stays. -/
  read : ∀ name, s.guards.get? name = some ⟨key, .read⟩ → values' = values
  /-- A get through any guard answers the data. -/
  gets : ∀ name mode, s.guards.get? name = some ⟨key, mode⟩ → s.Answers key name values t
  /-- A guard stays as it is unless a use of it succeeds. -/
  lasts : ∀ name mode, s.guards.get? name = some ⟨key, mode⟩ →
    (∀ use, t.step = .guard name use → (s.step t).2.reply ≠ .ok) →
      (s.step t).1.guards.get? name = some ⟨key, mode⟩
  /-- A use that succeeds leaves the guard as such a use does. -/
  trades : ∀ name mode use, s.guards.get? name = some ⟨key, mode⟩ → t.step = .guard name use →
    (s.step t).2.reply = .ok →
      (s.step t).1.guards.get? name = (use.mode? mode).map (⟨key, ·⟩)
  /-- A guard that is upgraded or downgraded hands on the data as it is. -/
  hands : ∀ name use, t.step = .guard name use → use = .upgrade ∨ use = .downgrade →
    values' = values

/-- The turn ends a guard for reading: the guard is released, forgotten or
upgraded. -/
def EndsReading (name : String) (s : Session) (t : Turn) : Prop :=
  ∃ use ∈ [GuardUse.release, .forget, .upgrade],
    t.step = .guard name use ∧ (s.step t).2.reply = .ok

variable {s : Session} {key : Nat} {t : Turn} {l : Lock} {values : List Int}

theorem data?_of_get? (h : s.objects.get? key = some (.vector l values)) :
    s.data? key = some values := by
  rw [data?, h]

/-- A guard that is alive answers the data. -/
theorem answers_of_alive {name : String} {mode : Mode}
    (there : s.objects.get? key = some (.vector l values))
    (alive : s.guards.get? name = some ⟨key, mode⟩) : s.Answers key name values t := by
  intro asked
  obtain ⟨actor, number, step⟩ := t
  obtain rfl := asked
  change (s.take _).2.1 = _ ∨ _ ∧ ∃ why, (s.take _).2.1 = _
  cases hget : s.stopped.get? actor with
  | some c =>
      right
      constructor
      · rintro ⟨-, hfree⟩
        rw [hget] at hfree
        cases hfree
      · rw [take_of_stopped hget rfl]
        exact ⟨_, rfl⟩
  | none =>
      by_cases hvector : ∃ m values', s.objects.get? number = some (.vector m values')
      · obtain ⟨m, values', ho⟩ := hvector
        left
        rw [take_of_free hget ho rfl, act, useGuard, alive]
        dsimp only
        rw [there]
        rfl
      · right
        constructor
        · rintro ⟨rfl, -⟩
          exact hvector ⟨l, values, there⟩
        · cases ho : s.objects.get? number with
          | none =>
              rw [take, hget, ho]
              exact ⟨_, rfl⟩
          | some o =>
              rw [take_of_free hget ho rfl]
              cases o with
              | vector m values' => exact absurd ⟨m, values', ho⟩ hvector
              | bare m => exact ⟨_, rfl⟩
              | payload p => exact ⟨_, rfl⟩

/-- A use of a guard that is no push and no pop changes nothing. -/
theorem Serves.data_eq {s' : Session} {reply : Reply} {values' : List Int} {name : String}
    {use : GuardUse} (h : s.Serves key t s' reply values values') (asked : t.step = .guard name use)
    (hedits : ¬ use.Edits values values') : values' = values := by
  obtain hsame | ⟨name', use', asked', -, hedits'⟩ := h.data
  · exact hsame
  · rw [asked] at asked'
    cases asked'
    exact absurd hedits' hedits

/-- A turn that serves the guards is steady, if a guard for writing is alone. -/
theorem Serves.steady {l' : Lock} {values' : List Int}
    (h : s.Serves key t (s.step t).1 (s.step t).2.reply values values') (alone : s.LoneWriter key)
    (before : s.objects.get? key = some (.vector l values))
    (after : (s.step t).1.objects.get? key = some (.vector l' values')) :
    s.Steady key t values values' where
  before := data?_of_get? before
  after := data?_of_get? after
  data := h.data
  read name hread := by
    obtain hsame | ⟨writer, use, -, hwrite, -⟩ := h.data
    · exact hsame
    · obtain rfl := alone writer hwrite name _ hread rfl
      rw [hwrite] at hread
      cases hread
  gets name mode alive := answers_of_alive before alive
  lasts := h.lasts
  trades := h.trades
  hands name use asked huse := by
    apply h.data_eq asked
    obtain rfl | rfl := huse <;> rintro ⟨⟩

/-- A guard for reading lives on through all turns that do not end it. -/
theorem Steady.alive_of_not_ends {name : String} {values' : List Int}
    (h : s.Steady key t values values') (alive : s.guards.get? name = some ⟨key, .read⟩)
    (lives : ¬ s.EndsReading name t) : (s.step t).1.guards.get? name = some ⟨key, .read⟩ := by
  by_cases hok : ∃ use, t.step = .guard name use ∧ (s.step t).2.reply = .ok
  · obtain ⟨use, asked, hok⟩ := hok
    refine (h.trades name .read use alive asked hok).trans ?_
    cases use with
    | release => exact absurd ⟨_, by simp, asked, hok⟩ lives
    | forget => exact absurd ⟨_, by simp, asked, hok⟩ lives
    | upgrade => exact absurd ⟨_, by simp, asked, hok⟩ lives
    | _ => rfl
  · exact h.lasts name .read alive fun use asked hreply => hok ⟨use, asked, hreply⟩

end Session

namespace Tenancy

open Session

/-- Along a script the guard for reading is alive and the data is `view`, and
every get through the guard answers `view`. -/
structure Views (key : Nat) (name : String) (view : List Int) (b : Tenancy)
    (script : List Turn) : Prop where
  stays : Script.Throughout (next key) (fun b => b.session.Sees key name view) b script
  gets : Script.EveryTurn (next key) (fun b t => b.session.Answers key name view t) b script

/-- What guards are good for along a script. -/
structure StableView (key : Nat) (b : Tenancy) (script : List Turn) : Prop where
  /-- A guard for writing is alone in every state. -/
  alone : Script.Throughout (next key) (fun b => b.session.LoneWriter key) b script
  /-- Every turn leaves the data to the guards. -/
  turns : Script.EveryTurn (next key)
    (fun b t => ∃ values values', b.session.Steady key t values values') b script
  /-- From anywhere on, a guard for reading has one view until it ends. -/
  views : ∀ first during rest name, script = first ++ during ++ rest →
    (b.after key first).session.guards.get? name = some ⟨key, .read⟩ →
    Script.EveryTurn (next key) (fun b t => ¬ b.session.EndsReading name t) (b.after key first)
      during →
    ∃ view, Views key name view (b.after key first) during

variable {s : Session} {key : Nat} {values : List Int} {script : List Turn} {b : Tenancy}

/-- Steady turns that do not end a guard for reading leave it its view. -/
theorem views_of_steady {name : String} {view : List Int} (sees : b.session.Sees key name view)
    (turns : Script.EveryTurn (next key)
      (fun b t => ∃ values values', b.session.Steady key t values values') b script)
    (lives : Script.EveryTurn (next key) (fun b t => ¬ b.session.EndsReading name t) b script) :
    Views key name view b script := by
  have turn : ∀ (b : Tenancy) (t : Turn), b.session.Sees key name view →
      (∃ values values', b.session.Steady key t values values') ∧ ¬ b.session.EndsReading name t →
      (b.next key t).session.Sees key name view ∧ b.session.Answers key name view t := by
    rintro b t ⟨alive, data⟩ ⟨⟨values, values', steady⟩, lives⟩
    obtain rfl : values = view := Option.some.inj (steady.before.symm.trans data)
    obtain rfl := steady.read name alive
    exact ⟨⟨steady.alive_of_not_ends alive lives, steady.after⟩, steady.gets name .read alive⟩
  obtain ⟨hstays, hgets⟩ := (turns.and lives).keeps sees turn
  exact ⟨hstays, hgets⟩

/-- Along every script that keeps to guards, on a vector behind a fresh lock,
guards give a stable view of the data. -/
theorem stable_view (fresh : s.Fresh key (.vector .fresh values))
    (onGuards : OnGuards key ⟨s, .none⟩ script) (fewReads : FewReads key ⟨s, .none⟩ script)
    (fewStarved : FewStarved key ⟨s, .none⟩ script) : StableView key ⟨s, .none⟩ script := by
  obtain ⟨hsound, hserves⟩ := sound_throughout fresh onGuards fewReads fewStarved
  have halone : ∀ b : Tenancy, (b.holds key).Exclusive → b.session.LoneWriter key :=
    fun b hx name hname other g hother hg => eq_of_exclusive hx.of_add hname hother hg
  have turns : Script.EveryTurn (next key)
      (fun b t => ∃ values values', b.session.Steady key t values values') ⟨s, .none⟩ script := by
    apply (hserves.and hsound.everyTurn).mono
    rintro b t ⟨⟨l, l', values, values', h, h', hserves⟩, ⟨hx, -⟩, -⟩
    exact ⟨values, values', hserves.steady (halone b hx) h.object h'.object⟩
  refine ⟨hsound.mono fun b hb => halone b hb.1, turns, ?_⟩
  rintro first during rest name rfl alive lives
  obtain ⟨-, l, view, h⟩ := hsound.of_append.of_append.last
  have during := (Script.EveryTurn.append_iff.mp (Script.EveryTurn.append_iff.mp turns).1).2
  exact ⟨view, views_of_steady ⟨alive, data?_of_get? h.object⟩ during lives⟩

/-- Two readers keep a writer out and each other from upgrading. The writer gets
in when they have left, pushes, downgrades and upgrades again; in the end a guard
for reading is forgotten, and others still read. -/
def succession : List Turn :=
  [⟨0, 0, .read "a"⟩, ⟨1, 0, .tryGuard "b" .read⟩, ⟨0, 0, .guard "a" .upgrade⟩,
    ⟨2, 0, .write "w" 0⟩, ⟨0, 0, .guard "a" .get⟩, ⟨0, 0, .guard "a" .release⟩,
    ⟨1, 0, .guard "b" .upgrade⟩, ⟨2, 0, .resume 1⟩, ⟨1, 0, .guard "b" .release⟩,
    ⟨2, 0, .resume 1⟩, ⟨2, 0, .guard "w" (.push 3)⟩, ⟨2, 0, .guard "w" .downgrade⟩,
    ⟨0, 0, .read "a"⟩, ⟨0, 0, .guard "a" .get⟩, ⟨0, 0, .guard "a" .release⟩,
    ⟨2, 0, .guard "w" .upgrade⟩, ⟨2, 0, .guard "w" .pop⟩, ⟨2, 0, .guard "w" .release⟩,
    ⟨0, 0, .read "a"⟩, ⟨0, 0, .guard "a" .forget⟩, ⟨1, 0, .read "b"⟩, ⟨1, 0, .guard "b" .get⟩]

theorem stable_view_succession :
    StableView 0 ⟨.start (.vector .fresh [1, 2]), .none⟩ succession :=
  stable_view (Session.start_fresh rfl) (by decide +kernel) (by decide +kernel)
    (by decide +kernel)

end Tenancy

end ReaderWriter
