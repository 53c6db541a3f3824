import AllocScript.Proofs.Snapshot.Lines
import AllocScript.Source

/-!
# What an evaluation asks for

The symbols that an evaluation asks for, and those of the allocation that it ends with, are texts of
string nodes that it has evaluated, and it asks only for what a snapshot could have been given
(`evaluate_invents_no_symbol`).
-/

namespace AllocScript

/-- What is asked for in a run comes from the tree, however the run ends. -/
theorem warrants_of_mem_requests {n : Node} {setting : Setting} {context : Context} {r : Request}
    (hr : r ∈ (evaluate n setting context).requests) :
    (n.history setting context).Text r.symbol ∧ r.metric.Proper := by
  obtain ⟨e, he, hrequest⟩ := List.mem_filterMap.1 hr
  have hsound := (Node.evalStrategy_sound (n.history setting context)).events setting
    (.initial context) (fun _ he => he) e he
  cases e with
  | asked request =>
    obtain rfl : request = r := Option.some.inj hrequest
    exact hsound
  | _ => cases hrequest

/-- **An evaluation invents no symbol and asks only for what a snapshot can hold.** Every symbol of
the allocation that it ends with is the text of a string node of the tree that has been evaluated in
the run. So is every symbol that the feed is asked for, even if the run fails, and each metric that
it is asked for has a period that its indicator allows: none for the current price, and else one
from 1 to the greatest period. These are the metrics that a snapshot from a file can have a value
for. -/
theorem evaluate_invents_no_symbol (n : Node) (setting : Setting) (context : Context) :
    (∀ a, (evaluate n setting context).result = .ok a → ∀ s ∈ a.symbols,
      (n.history setting context).Text s) ∧
    (∀ r ∈ (evaluate n setting context).requests,
      (n.history setting context).Text r.symbol ∧
      (if r.metric.indicator = .currentPrice then r.metric.period = 0
        else 1 ≤ r.metric.period ∧ r.metric.period ≤ maxPeriod)) ∧
    ∀ m : Metric, (if m.indicator = .currentPrice then m.period = 0
        else 1 ≤ m.period ∧ m.period ≤ maxPeriod) ↔
      ∃ bytes snapshot symbol,
        Snapshot.ofCsv bytes = .ok snapshot ∧ (snapshot.get? ⟨symbol, m⟩).isSome := by
  have hproper : ∀ m : Metric, m.Proper ↔ if m.indicator = .currentPrice then m.period = 0
      else 1 ≤ m.period ∧ m.period ≤ maxPeriod := by
    intro m
    unfold Metric.Proper Indicator.takesPeriod
    by_cases hm : m.indicator = .currentPrice <;> simp [hm]
  refine ⟨fun a ha s hs => (symbol_of_evaluate ha hs).1, fun r hr => ?_, fun m => ?_⟩
  · obtain ⟨hsymbol, hmetric⟩ := warrants_of_mem_requests hr
    exact ⟨hsymbol, (hproper r.metric).1 hmetric⟩
  · exact (hproper m).symm.trans m.proper_iff_stored

/-- A run that asks for the price of one asset and chooses another. -/
theorem evaluate_invents_no_symbol_price :
    let feed : Feed := fun _ => .ok .one
    ∃ n a, Node.ofSource "(if (> (current-price \"A\") 2) (asset \"A\") (asset \"B\"))" = .ok n ∧
      (evaluate n { feed } .fresh).result = .ok a ∧ "B" ∈ a.symbols ∧
      (n.history { feed } .fresh).Text "B" ∧
      ⟨"A", .currentPrice, 0⟩ ∈ (evaluate n { feed } .fresh).requests ∧
      (n.history { feed } .fresh).Text "A" := by
  intro feed
  have hrun : (match Node.ofSource
        "(if (> (current-price \"A\") 2) (asset \"A\") (asset \"B\"))" with
      | .ok n => match (evaluate n { feed } .fresh).result with
        | .ok a => decide ("B" ∈ a.symbols ∧
          ⟨"A", .currentPrice, 0⟩ ∈ (evaluate n { feed } .fresh).requests)
        | .error _ => false
      | .error _ => false) = true := by decide +kernel
  split at hrun
  · rename_i n hn
    split at hrun
    · rename_i a ha
      obtain ⟨hsymbol, hrequest⟩ := of_decide_eq_true hrun
      obtain ⟨symbols, requests, -⟩ := evaluate_invents_no_symbol n { feed } .fresh
      exact ⟨n, a, hn, ha, hsymbol, symbols a ha "B" hsymbol, hrequest, (requests _ hrequest).1⟩
    · cases hrun
  · cases hrun

end AllocScript
