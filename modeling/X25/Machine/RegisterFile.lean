import X25.Machine.Endpoint
import X25.Word

/-! # The register file

The values of all registers and of the sink. `get` and `put` disregard rights; the two constants
are cells as well, which only `set` protects.
-/

namespace X25

structure RegisterFile where
  zero : Word
  one : Word
  pc : Word
  mar : Word
  mdr : Word
  ira : Word
  irb : Word
  gp : Vector Word 16
  void : Word
  deriving DecidableEq, Repr

namespace RegisterFile

def initial : RegisterFile :=
  ⟨0, 1, 0, 0, 0, 0, 0, .replicate 16 0, 0⟩

def get (f : RegisterFile) : Register → Word
  | .gp i => f.gp[i]
  | .zero => f.zero
  | .one => f.one
  | .pc => f.pc
  | .mar => f.mar
  | .mdr => f.mdr
  | .ira => f.ira
  | .irb => f.irb

def put (f : RegisterFile) (r : Register) (v : Word) : RegisterFile :=
  match r with
  | .gp i => { f with gp := f.gp.set i v }
  | .zero => { f with zero := v }
  | .one => { f with one := v }
  | .pc => { f with pc := v }
  | .mar => { f with mar := v }
  | .mdr => { f with mdr := v }
  | .ira => { f with ira := v }
  | .irb => { f with irb := v }

/-- Writes a register from outside the machine; the constants stay as they are. -/
def set (f : RegisterFile) (r : Register) (v : Word) : RegisterFile :=
  match r with
  | .zero | .one => f
  | r => f.put r v

def read (f : RegisterFile) (r : Register) : Except AccessViolation Word := do
  (Endpoint.register r).checkRead
  return f.get r

def write (f : RegisterFile) (r : Register) (v : Word) : Except AccessViolation RegisterFile := do
  (Endpoint.register r).checkWrite
  return f.put r v

theorem get_put_self (f : RegisterFile) (r : Register) (v : Word) : (f.put r v).get r = v := by
  cases r <;> simp [put, get]

theorem get_put_of_ne (f : RegisterFile) {r s : Register} (v : Word) (h : r ≠ s) :
    (f.put r v).get s = f.get s := by
  cases r <;> cases s <;> simp_all [put, get]
  exact Vector.getElem_set_ne _ _ (fun e => h (Fin.ext e))

theorem get_put (f : RegisterFile) (r s : Register) (v : Word) :
    (f.put r v).get s = if r = s then v else f.get s := by
  split
  · next h => subst h; exact get_put_self f r v
  · next h => exact get_put_of_ne f v h

@[simp] theorem void_put (f : RegisterFile) (r : Register) (v : Word) :
    (f.put r v).void = f.void := by
  cases r <;> rfl

end RegisterFile

end X25
