import X25.Json.Isa
import X25.Machine.Snapshot

/-! # Machine state as JSON

The JSON forms of layouts, headers, flags, transfers, retired instructions and snapshots. Only the
retired instruction of a snapshot may be missing; it then reads as none.
-/

namespace X25

namespace Layout

def toJson (l : Layout) : Json :=
  .object [("ram_start", .ofWord l.ramStart), ("ram_end", .ofWord l.ramEnd),
    ("console_start", .ofWord l.consoleStart), ("console_end", .ofWord l.consoleEnd)]

def ofJson? (j : Json) : Option Layout := do
  match ← j.members? ["ram_start", "ram_end", "console_start", "console_end"] with
  | [rs, re, cs, ce] =>
    return ⟨← rs >>= Json.word?, ← re >>= Json.word?, ← cs >>= Json.word?, ← ce >>= Json.word?⟩
  | _ => none

end Layout

namespace Header

def toJson (h : Header) : Json :=
  .object [("version", .ofWord h.version), ("ram_start", .ofWord h.layout.ramStart),
    ("ram_end", .ofWord h.layout.ramEnd), ("console_start", .ofWord h.layout.consoleStart),
    ("console_end", .ofWord h.layout.consoleEnd), ("entry", .ofWord h.entry)]

def ofJson? (j : Json) : Option Header := do
  match ← j.members? ["version", "ram_start", "ram_end", "console_start", "console_end",
      "entry"] with
  | [v, rs, re, cs, ce, e] =>
    return ⟨← v >>= Json.word?,
      ⟨← rs >>= Json.word?, ← re >>= Json.word?, ← cs >>= Json.word?, ← ce >>= Json.word?⟩,
      ← e >>= Json.word?⟩
  | _ => none

end Header

namespace Flags

def toJson (f : Flags) : Json :=
  .object [("overflow", .bool f.overflow), ("zero", .bool f.zero), ("negative", .bool f.negative),
    ("carry", .bool f.carry)]

def ofJson? (j : Json) : Option Flags := do
  match ← j.members? ["overflow", "zero", "negative", "carry"] with
  | [o, z, n, c] =>
    return ⟨← o >>= Json.bool?, ← z >>= Json.bool?, ← n >>= Json.bool?, ← c >>= Json.bool?⟩
  | _ => none

end Flags

namespace Bus

def all : List Bus :=
  [feedA, feedB, writeback]

def tag : Bus → String
  | feedA => "AFeed"
  | feedB => "BFeed"
  | writeback => "Writeback"

def toJson (b : Bus) : Json :=
  .string b.tag

def ofJson? (j : Json) : Option Bus :=
  j.oneOf? all tag

end Bus

namespace Endpoint

def internals : List Endpoint :=
  [aluA, aluB, aluOut, void]

def tag : Endpoint → String
  | register _ => "Register"
  | aluA => "AluA"
  | aluB => "AluB"
  | aluOut => "AluResult"
  | void => "Void"

def toJson : Endpoint → Json
  | register r => .object [("Register", r.toJson)]
  | e => .string e.tag

def ofJson? : Json → Option Endpoint
  | .object [("Register", j)] => (Register.ofJson? j).map register
  | j => j.oneOf? internals tag

end Endpoint

namespace Transfer

def toJson (t : Transfer) : Json :=
  .object [("bus", t.bus.toJson), ("source", t.source.toJson),
    ("destination", t.destination.toJson)]

def ofJson? (j : Json) : Option Transfer := do
  match ← j.members? ["bus", "source", "destination"] with
  | [b, s, d] =>
    return ⟨← b >>= Bus.ofJson?, ← s >>= Endpoint.ofJson?, ← d >>= Endpoint.ofJson?⟩
  | _ => none

end Transfer

namespace Phase

def all : List Phase :=
  [fetch1, fetch2, decode, execute]

def tag (p : Phase) : String :=
  Text.titled p.name

def toJson (p : Phase) : Json :=
  .string p.tag

def ofJson? (j : Json) : Option Phase :=
  j.oneOf? all tag

end Phase

namespace RunState

def all : List RunState :=
  [running, halted, faulted]

def toJson (s : RunState) : Json :=
  .string s.name

def ofJson? (j : Json) : Option RunState :=
  j.oneOf? all name

end RunState

namespace Retired

def toJson (r : Retired) : Json :=
  .object [("address", .ofWord r.address), ("instruction", r.instruction.toJson),
    ("executed", .bool r.executed)]

def ofJson? (medium : Json.Medium) (j : Json) : Option Retired := do
  match ← j.members? ["address", "instruction", "executed"] with
  | [a, i, e] =>
    return ⟨← a >>= Json.word?, ← i >>= Instruction.ofJson? medium, ← e >>= Json.bool?⟩
  | _ => none

end Retired

namespace Json

def sixteenWords? : Json → Option (Vector Word 16)
  | array items => do
    let ws ← items.mapM word?
    if h : ws.toArray.size = 16 then some ⟨ws.toArray, h⟩ else none
  | _ => none

def ofWords (ws : List Word) : Json :=
  array (ws.map ofWord)

end Json

namespace Snapshot

def memberNames : List String :=
  ["state", "phase", "cycles", "pc", "mar", "mdr", "ira", "irb", "gp", "flags", "alu_operation",
    "flags_enabled", "last_retired"]

def toJson (s : Snapshot) : Json :=
  .object [("state", s.state.toJson), ("phase", s.phase.toJson), ("cycles", .ofNat s.cycles),
    ("pc", .ofWord s.pc), ("mar", .ofWord s.mar), ("mdr", .ofWord s.mdr), ("ira", .ofWord s.ira),
    ("irb", .ofWord s.irb), ("gp", .ofWords s.gp.toList), ("flags", s.flags.toJson),
    ("alu_operation", s.operation.toJson), ("flags_enabled", .bool s.latching),
    ("last_retired", .ofOption Retired.toJson s.retired)]

def ofJson? (medium : Json.Medium) (j : Json) : Option Snapshot := do
  match ← j.members? memberNames with
  | [state, phase, cycles, pc, mar, mdr, ira, irb, gp, flags, operation, latching, retired] =>
    return {
      state := ← state >>= RunState.ofJson?
      phase := ← phase >>= Phase.ofJson?
      cycles := ← cycles >>= Json.count?
      pc := ← pc >>= Json.word?
      mar := ← mar >>= Json.word?
      mdr := ← mdr >>= Json.word?
      ira := ← ira >>= Json.word?
      irb := ← irb >>= Json.word?
      gp := ← gp >>= Json.sixteenWords?
      flags := ← flags >>= Flags.ofJson?
      operation := ← operation >>= Microcode.ofJson?
      latching := ← latching >>= Json.bool?
      retired := ← Json.option? (Retired.ofJson? medium) retired }
  | _ => none

end Snapshot

end X25
