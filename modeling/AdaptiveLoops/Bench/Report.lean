/-
What a bench reports: how often each candidate was picked, and what was
learned of it, as a document or as a table. Times are in milliseconds.
-/
import AdaptiveLoops.Bench
import AdaptiveLoops.Profile
import AdaptiveLoops.Stats.Document
import AdaptiveLoops.Text.Column

namespace AdaptiveLoops

open Text.Column (left right fixed)

structure BenchReport where
  shape : List UInt64
  iterations : UInt64
  picks : List Nat
  stats : RegionStats

namespace BenchReport

def document (r : BenchReport) : Document :=
  .record
    [("shape", .list (r.shape.map .word)),
     ("iterations", .word r.iterations),
     ("picks", .list (r.picks.map fun (n : Nat) => .int n)),
     ("stats", r.stats.document)]

/-- A length of time in milliseconds, with the given number of places. -/
def milliseconds (places : Nat) (d : Duration) : String :=
  fixed places d.nanos 1000000

def header : String :=
  right 3 "#" ++ "  " ++ left 20 "policy" ++ " " ++ right 7 "picks" ++ " " ++ right 7 "samples"
    ++ " " ++ right 12 "mean" ++ " " ++ right 8 "failures"

def row (index picks : Nat) (s : PolicyStats) : String :=
  right 3 (Nat.repr index) ++ "  " ++ left 20 s.policy.text ++ " " ++ right 7 (Nat.repr picks)
    ++ " " ++ right 7 (Nat.repr s.samples) ++ " " ++ right 9 (milliseconds 3 s.timing.duration)
    ++ " ms " ++ right 8 (Nat.repr s.failures)

def rows (r : BenchReport) : List String :=
  r.stats.policies.mapIdx fun index s => row index (r.picks[index]?.getD 0) s

def table (r : BenchReport) : List String :=
  s!"region {r.stats.site.text} x{r.iterations}" :: header :: r.rows

end BenchReport

namespace Profile

def timing (p : Phase) : String :=
  right 16 p.name ++ ": " ++ right 6 (BenchReport.milliseconds 2 p.duration) ++ " ms"

/-- A line for each phase, and one for their total. -/
def table (p : Profile) : List String :=
  let total := p.foldl (fun (acc : Duration) phase => acc + phase.duration) .zero
  "[Timing]" :: (p.map timing ++ [timing ⟨"Total", total⟩])

end Profile

end AdaptiveLoops
