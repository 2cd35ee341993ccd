/-
Dual-port block RAM with registered read address and registered output.

A read returns its word two clocks after the address was presented.  When the
read and the write port meet at one address in the same clock, the word read is
not defined by the megafunction (`DONT_CARE`); it is an input of the model, so
that every result holds whatever the silicon returns.
-/

import Synesthesia.Rtl.Memory

namespace Synesthesia.Rtl

structure DualPortRam (addrBits dataBits : Nat) where
  memory : BitVec addrBits → BitVec dataBits
  latch : BitVec dataBits
  q : BitVec dataBits

namespace DualPortRam

variable {addrBits dataBits : Nat}

structure Ports (addrBits dataBits : Nat) where
  data : BitVec dataBits
  rdaddress : BitVec addrBits
  wraddress : BitVec addrBits
  wren : Bool
  /-- Word returned when the two ports meet. -/
  mixed : BitVec dataBits

def init (contents : BitVec addrBits → BitVec dataBits) : DualPortRam addrBits dataBits :=
  { memory := contents
    latch := 0
    q := 0 }

def step (ram : DualPortRam addrBits dataBits) (ports : Ports addrBits dataBits) :
    DualPortRam addrBits dataBits :=
  { memory := store ram.memory ports.wren ports.wraddress ports.data
    latch :=
      if ports.wren = true ∧ ports.rdaddress = ports.wraddress then ports.mixed
      else ram.memory ports.rdaddress
    q := ram.latch }

end DualPortRam

/-- Block RAM with a port `a` that reads and writes and a port `b` that only reads,
both registered at address and output.  A write shows its word on its own port. -/
structure TrueDualPortRam (addrBits dataBits : Nat) where
  memory : BitVec addrBits → BitVec dataBits
  latchA : BitVec dataBits
  latchB : BitVec dataBits
  qA : BitVec dataBits
  qB : BitVec dataBits

namespace TrueDualPortRam

variable {addrBits dataBits : Nat}

structure Ports (addrBits dataBits : Nat) where
  addressA : BitVec addrBits
  dataA : BitVec dataBits
  wrenA : Bool
  addressB : BitVec addrBits
  /-- Word returned at port `b` when it meets a write. -/
  mixed : BitVec dataBits

def init (contents : BitVec addrBits → BitVec dataBits) : TrueDualPortRam addrBits dataBits :=
  { memory := contents
    latchA := 0
    latchB := 0
    qA := 0
    qB := 0 }

/-- Port `b` reads where port `a` writes. -/
def Ports.meet (ports : Ports addrBits dataBits) : Prop :=
  ports.wrenA = true ∧ ports.addressB = ports.addressA

instance (ports : Ports addrBits dataBits) : Decidable ports.meet :=
  inferInstanceAs (Decidable (_ ∧ _))

def step (ram : TrueDualPortRam addrBits dataBits) (ports : Ports addrBits dataBits) :
    TrueDualPortRam addrBits dataBits :=
  { memory := store ram.memory ports.wrenA ports.addressA ports.dataA
    latchA := if ports.wrenA then ports.dataA else ram.memory ports.addressA
    latchB := if ports.meet then ports.mixed else ram.memory ports.addressB
    qA := ram.latchA
    qB := ram.latchB }

end TrueDualPortRam

end Synesthesia.Rtl
