import X25.Isa.Register
import X25.Text.Numeral

/-! # Endpoints of the buses

What a bus can read or write: the registers that instructions name, the three latches of the
arithmetic unit, and a sink that only takes values. Each has rights, and touching some of them has
an effect elsewhere.
-/

namespace X25

inductive Endpoint
  | register (r : Register)
  | aluA | aluB | aluOut | void
  deriving DecidableEq, Repr

inductive Access
  | readOnly | readWrite | writeOnly
  deriving DecidableEq, Repr

namespace Access

def name : Access → String
  | readOnly => "ReadOnly"
  | readWrite => "ReadWrite"
  | writeOnly => "WriteOnly"

def isReadable : Access → Bool
  | writeOnly => false
  | _ => true

def isWritable : Access → Bool
  | readOnly => false
  | _ => true

end Access

/-- When touching an endpoint has an effect elsewhere. -/
inductive Trigger
  | never | onWrite | onAccess
  deriving DecidableEq, Repr

namespace Trigger

def name : Trigger → String
  | never => "Plain"
  | onWrite => "ComputedOnWrite"
  | onAccess => "ComputedOnAccess"

def firesOnRead : Trigger → Bool
  | onAccess => true
  | _ => false

def firesOnWrite : Trigger → Bool
  | never => false
  | _ => true

end Trigger

namespace Endpoint

def name : Endpoint → String
  | register r => r.name
  | aluA => "ALU.A"
  | aluB => "ALU.B"
  | aluOut => "ALU.OUT"
  | void => "VOID"

def access : Endpoint → Access
  | register .zero | register .one | aluOut => .readOnly
  | aluA | aluB | void => .writeOnly
  | register _ => .readWrite

def trigger : Endpoint → Trigger
  | register .mdr => .onAccess
  | aluA | aluB => .onWrite
  | _ => .never

def isInternal : Endpoint → Bool
  | register _ => false
  | _ => true

end Endpoint

structure AccessViolation where
  endpoint : Endpoint
  deriving DecidableEq, Repr

def AccessViolation.message (v : AccessViolation) : String :=
  "register " ++ v.endpoint.name ++ " is " ++ v.endpoint.access.name

namespace Endpoint

def checkRead (e : Endpoint) : Except AccessViolation Unit :=
  if e.access.isReadable then .ok () else .error ⟨e⟩

def checkWrite (e : Endpoint) : Except AccessViolation Unit :=
  if e.access.isWritable then .ok () else .error ⟨e⟩

end Endpoint

end X25
