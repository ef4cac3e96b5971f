import X25.Clock
import X25.Json.Reading

/-! # Clock settings and results as JSON

A pause is written in whole seconds and the nanoseconds beyond them.
-/

namespace X25

def ClockMode.toJson : ClockMode → Json
  | auto pause =>
    .object [("Auto", .object [("period",
      .object [("secs", .ofNat (pause / 1000000000)), ("nanos", .ofNat (pause % 1000000000))])])]
  | manual => .string "Manual"

def ClockConfig.toJson (c : ClockConfig) : Json :=
  .object [("mode", c.mode.toJson), ("max_cycles", .ofOption .ofNat c.limit)]

namespace HaltReason

def toJson (r : HaltReason) : Json :=
  .string r.name

def ofJson? (j : Json) : Option HaltReason :=
  j.oneOf? all name

end HaltReason

namespace RunSummary

def toJson (s : RunSummary) : Json :=
  .object [("cycles", .ofNat s.cycles), ("reason", s.reason.toJson)]

def ofJson? (j : Json) : Option RunSummary := do
  match ← j.members? ["cycles", "reason"] with
  | [c, r] => return ⟨← c >>= Json.count?, ← r >>= HaltReason.ofJson?⟩
  | _ => none

end RunSummary

end X25
