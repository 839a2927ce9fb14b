import DicePool.Main
import DicePool.Proofs.Analysis.Adjustments
import DicePool.Proofs.Analysis.Binomial
import DicePool.Proofs.Analysis.Boosts
import DicePool.Proofs.Analysis.Enumeration
import DicePool.Proofs.Analysis.Exact
import DicePool.Proofs.Analysis.Extremes
import DicePool.Proofs.Analysis.Moments
import DicePool.Proofs.Analysis.Multinomial
import DicePool.Proofs.Analysis.Proportions
import DicePool.Proofs.Analysis.Pushforward
import DicePool.Proofs.Analysis.Sampling
import DicePool.Proofs.Analysis.Verdict
import DicePool.Proofs.Duality
import DicePool.Proofs.Equation.Leftover
import DicePool.Proofs.Equation.Nested
import DicePool.Proofs.Equation.Splice
import DicePool.Proofs.Expression.Misread
import DicePool.Proofs.Expression.Spacing
import DicePool.Proofs.Modifiers.Window
import DicePool.Proofs.Overflow
import DicePool.Proofs.Overflow.Roll
import DicePool.Proofs.Report
import DicePool.Proofs.Roll.Budget
import DicePool.Proofs.Roll.Compounding
import DicePool.Proofs.Roll.Explosions
import DicePool.Proofs.Roll.Failure
import DicePool.Proofs.Roll.Pointing
import DicePool.Proofs.Roll.Positions
import DicePool.Proofs.Roll.Rerolls
import DicePool.Proofs.Session
import DicePool.Proofs.Statistics.Order
import DicePool.Proofs.Statistics.Relabel
import DicePool.Proofs.Statistics.Summary
import DicePool.Proofs.Tally.Convolution
import DicePool.Proofs.Tally.History
import DicePool.Proofs.Tally.Scale
import DicePool.Proofs.Token.Tiling
import DicePool.Proofs.WellFormed
