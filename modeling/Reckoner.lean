import Reckoner.Main
import Reckoner.Proofs.CanonicalForm
import Reckoner.Proofs.EarliestFault
import Reckoner.Proofs.EqualPositions
import Reckoner.Proofs.EqualTrees
import Reckoner.Proofs.JoinedTexts
import Reckoner.Proofs.LimitedSinks
import Reckoner.Proofs.LineAttribution
import Reckoner.Proofs.NumberLiterals
import Reckoner.Proofs.NumeralLayout
import Reckoner.Proofs.ReaderBounds
import Reckoner.Proofs.RepeatedReadings
import Reckoner.Proofs.Respacing
import Reckoner.Proofs.ResultKinds
import Reckoner.Proofs.RunOutcomes
import Reckoner.Proofs.StageAgreement
import Reckoner.Proofs.StatementBoundaries
import Reckoner.Proofs.TracedRuns
