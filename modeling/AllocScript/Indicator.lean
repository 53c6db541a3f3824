/-!
# Indicators and metrics

An `Indicator` names a figure that is known about a symbol, such as its relative strength index.
A `Metric` is an indicator with its look-back period; the current price has none and uses period 0.
-/

namespace AllocScript

inductive Indicator where
  | rsi
  | movingAveragePrice
  | exponentialMovingAveragePrice
  | movingAverageReturn
  | cumulativeReturn
  | stdevReturn
  | stdevPrice
  | maxDrawdown
  | currentPrice
deriving DecidableEq

namespace Indicator

/-- Every indicator, in the order of the catalogue. -/
def all : List Indicator :=
  [rsi, movingAveragePrice, exponentialMovingAveragePrice, movingAverageReturn, cumulativeReturn,
    stdevReturn, stdevPrice, maxDrawdown, currentPrice]

/-- The name that strategies and snapshot files use. -/
def name : Indicator → String
  | rsi => "rsi"
  | movingAveragePrice => "moving-average-price"
  | exponentialMovingAveragePrice => "exponential-moving-average-price"
  | movingAverageReturn => "moving-average-return"
  | cumulativeReturn => "cumulative-return"
  | stdevReturn => "stdev-return"
  | stdevPrice => "stdev-price"
  | maxDrawdown => "max-drawdown"
  | currentPrice => "current-price"

def ofName? (name : String) : Option Indicator := all.find? fun i => i.name == name

/-- Every indicator but the current price looks back over a period. -/
def takesPeriod (i : Indicator) : Bool := i != currentPrice

end Indicator

/-- An indicator with its look-back period. -/
structure Metric where
  indicator : Indicator
  period : Nat
deriving DecidableEq

def Metric.render (m : Metric) : String := s!"{m.indicator.name}({m.period})"

/-- A metric of one symbol, as it is asked for. -/
structure Request where
  symbol : String
  metric : Metric
deriving DecidableEq

/-- The longest look-back period, `2 ^ 32 - 1`. -/
def maxPeriod : Nat := 4294967295

end AllocScript
