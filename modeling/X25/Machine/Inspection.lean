import X25.Machine.Cpu
import X25.Text.Description

/-! # Inspection

Descriptions of devices, regions and the whole processor, for whoever examines a machine.
-/

namespace X25

def Device.cellsDescription (d : Device) : Description :=
  .record "Memory" [("non_zero_cells", .nat (d.cells.countP (· != 0))),
    ("total_cells", .nat d.cells.size)]

def Device.description (d : Device) : Description :=
  match d.kind with
  | .console _ => .record "Console" [("cells", d.cellsDescription)]
  | _ => d.cellsDescription

def Region.description (r : Region) : Description :=
  .record "MemoryRegion" [("start", .atom (Numeral.hexMarked 1 r.first.toNat)),
    ("end", .atom (Numeral.hexMarked 1 r.last.toNat)), ("device", .quoted r.device.name)]

def Endpoint.description (e : Endpoint) (v : Word) : Description :=
  .record "Register" [("name", .quoted e.name), ("value", .nat v.toNat),
    ("access", .atom e.access.name), ("kind", .atom e.trigger.name),
    ("special", .bool e.isInternal)]

namespace RegisterFile

def registerDescription (f : RegisterFile) (r : Register) : Description :=
  (Endpoint.register r).description (f.get r)

def description (f : RegisterFile) : Description :=
  .record "RegisterFile" [("zero", f.registerDescription .zero),
    ("one", f.registerDescription .one), ("pc", f.registerDescription .pc),
    ("mar", f.registerDescription .mar), ("mdr", f.registerDescription .mdr),
    ("ira", f.registerDescription .ira), ("irb", f.registerDescription .irb),
    ("gp", .list (Register.gps.map f.registerDescription)),
    ("void", Endpoint.void.description f.void)]

end RegisterFile

def Cpu.description (c : Cpu) : Description :=
  .record "Cpu" [("state", .atom c.state.name), ("cycles", .nat c.cycles),
    ("phase", .atom (Text.titled c.phase.name)), ("regs", c.registers.description),
    ("mmu", .record "Mmu" [("regions", .list (c.memory.regions.map Region.description))])]

end X25
