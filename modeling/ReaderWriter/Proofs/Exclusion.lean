import ReaderWriter.Proofs.Session.Soundness

/-!
# Readers and writers exclude each other

However a disciplined script interleaves its calls, there is at most one write
hold at a time and no read hold beside it. Exclusion follows from the balance
of the words: what is granted is granted while the flag is down or nobody is
registered, and the balance turns either observation into one about holds.

A writer owns the flag while it still waits for readers to leave. Its stake is
in the balance long before its hold is, so nobody else can get the flag then.
-/

namespace ReaderWriter.Ledger

variable {s : Session} {key : Nat} {o : Object} {script : List Turn}

/-- Along every disciplined script on a fresh lock there is at most one write
hold, and no read hold while there is one. -/
theorem holds_exclusive (fresh : s.Fresh key o)
    (disciplined : Disciplined key ⟨s, .none⟩ script)
    (fewReads : FewReads key ⟨s, .none⟩ script)
    (fewStarved : FewStarved key ⟨s, .none⟩ script) :
    Throughout key (fun b => b.holds.Exclusive) ⟨s, .none⟩ script := by
  have kept := exclusive_throughout fresh disciplined fewReads fewStarved
  exact kept.mono fun b hb => hb.1

/-- A reader runs out of patience under a writer, holds a second writer back,
and gets in when the first one downgrades; then an upgrade is refused, and one
goes through when the other reader has left. -/
def handover : List Turn :=
  [⟨0, 0, .waiting (.acquire .write)⟩, ⟨1, 0, .waiting (.acquire .read)⟩,
    ⟨1, 0, .resume 501⟩, ⟨2, 0, .waiting (.acquire .write)⟩, ⟨0, 0, .instant .downgrade⟩,
    ⟨1, 0, .resume 1⟩, ⟨1, 0, .instant .tryUpgrade⟩, ⟨0, 0, .instant (.unlock .read)⟩,
    ⟨1, 0, .instant .tryUpgrade⟩, ⟨2, 0, .resume 1⟩, ⟨1, 0, .instant (.unlock .write)⟩,
    ⟨2, 0, .resume 1⟩]

theorem holds_exclusive_handover :
    Throughout 0 (fun b => b.holds.Exclusive) ⟨.start (.bare .fresh), .none⟩ handover :=
  holds_exclusive (Session.start_fresh rfl) (by decide +kernel) (by decide +kernel)
    (by decide +kernel)

end ReaderWriter.Ledger
