import ExchangeFees.CommandLine.Response
import ExchangeFees.Proofs.Fill.Amm
import ExchangeFees.Proofs.Fill.Venue
import ExchangeFees.Proofs.Record.Build

/-! Trades of every kind, and the ways in which computing their fees can fail under a schedule
whose terms need not be plain. Building the record of a fill adds no failure. -/
namespace ExchangeFees

namespace CommandLine.Fill

theorem fees_amm (f : AmmFill) (s : Schedule) : (amm f).fees s = Record.fill <$> f.fees s := by
  simp only [fees, Record.ofEntries_fill]
  rfl

theorem fees_matched (f : MatchedFill) (s : Schedule) :
    (matched f).fees s = Record.fill <$> f.fees s := by
  simp only [fees, Record.ofEntries_fill]
  rfl

theorem fees_venue (f : VenueFill) (s : Schedule) :
    (venue f).fees s = Record.venueFill <$> f.fees s := by
  simp only [fees, Record.ofEntries_venueFill]
  rfl

end CommandLine.Fill

/-- A fill of any kind whose amounts and times are integers. -/
inductive Trade where
  | amm (t : AmmTrade)
  | matched (t : MatchedTrade)
  | venue (t : VenueTrade)

namespace Trade

def fill : Trade → CommandLine.Fill
  | amm t => .amm t.fill
  | matched t => .matched t.fill
  | venue t => .venue t.fill

/-- The integers that a trade is given. -/
def given : Trade → List Int
  | amm t => t.given
  | matched t => t.given
  | venue t => t.given

/-- Fees fail by arithmetic, as taking one of the terms for an amount fails, or because an integer
is too long to be written. -/
theorem fees_failsOnly {faults : Error → Prop} (arithmetic : ∀ fault, faults (.arithmetic fault))
    {s : Schedule} (reads : ∀ x ∈ s.terms, x.ReadsOnly faults) (t : Trade)
    (long : ∀ n ∈ t.given, ¬ Text.IsShort n → faults .longInteger) :
    FailsOnly faults (t.fill.fees s).result := by
  cases t with
  | amm t =>
    simp only [fill, CommandLine.Fill.fees_amm, Traced.result_map]
    exact (AmmTrade.fees_failsOnly arithmetic reads t long).map
  | matched t =>
    simp only [fill, CommandLine.Fill.fees_matched, Traced.result_map]
    exact (MatchedTrade.fees_failsOnly arithmetic reads t long).map
  | venue t =>
    simp only [fill, CommandLine.Fill.fees_venue, Traced.result_map]
    exact (VenueTrade.fees_failsOnly arithmetic reads t long).map

end Trade
end ExchangeFees
