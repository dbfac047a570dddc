import ReaderWriter.Main
import ReaderWriter.Proofs.Accounting
import ReaderWriter.Proofs.AttemptOutcomes
import ReaderWriter.Proofs.Breaches
import ReaderWriter.Proofs.BusyAnswers
import ReaderWriter.Proofs.Bypass
import ReaderWriter.Proofs.CommandLineRoundTrip
import ReaderWriter.Proofs.CounterWrap
import ReaderWriter.Proofs.Drain
import ReaderWriter.Proofs.DrainOut
import ReaderWriter.Proofs.Exclusion
import ReaderWriter.Proofs.GuardAccounting
import ReaderWriter.Proofs.Linearization
import ReaderWriter.Proofs.LogFilter
import ReaderWriter.Proofs.PatienceSetting
import ReaderWriter.Proofs.PlanNesting
import ReaderWriter.Proofs.ReaderCourse
import ReaderWriter.Proofs.ReadersCommute
import ReaderWriter.Proofs.RoundAccounting
import ReaderWriter.Proofs.RunReport
import ReaderWriter.Proofs.StableView
import ReaderWriter.Proofs.WaitsAndAttempts
