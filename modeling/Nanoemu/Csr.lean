import Nanoemu.Trap
import Nanoemu.Width

/-!
# Control and status registers

The supervisor views `sstatus`, `sie` and `sip` are masked windows onto
`mstatus`, `mie` and `mip`, so they are resolved on reading and writing rather
than stored.  Register numbers are twelve bits wide: the file has 4096 slots
and every number an instruction can name is one of them.
-/

namespace Nanoemu

namespace Csr

def FFLAGS : BitVec 12 := 0x001
def FRM : BitVec 12 := 0x002
def FCSR : BitVec 12 := 0x003

def CYCLE : BitVec 12 := 0xC00
def TIME : BitVec 12 := 0xC01
def INSTRET : BitVec 12 := 0xC02
def CYCLEH : BitVec 12 := 0xC80
def TIMEH : BitVec 12 := 0xC81
def INSTRETH : BitVec 12 := 0xC82

def SSTATUS : BitVec 12 := 0x100
def SIE : BitVec 12 := 0x104
def STVEC : BitVec 12 := 0x105
def SCOUNTEREN : BitVec 12 := 0x106
def SSCRATCH : BitVec 12 := 0x140
def SEPC : BitVec 12 := 0x141
def SCAUSE : BitVec 12 := 0x142
def STVAL : BitVec 12 := 0x143
def SIP : BitVec 12 := 0x144
def SATP : BitVec 12 := 0x180

def MVENDORID : BitVec 12 := 0xF11
def MARCHID : BitVec 12 := 0xF12
def MIMPID : BitVec 12 := 0xF13
def MHARTID : BitVec 12 := 0xF14

def MSTATUS : BitVec 12 := 0x300
def MISA : BitVec 12 := 0x301
def MEDELEG : BitVec 12 := 0x302
def MIDELEG : BitVec 12 := 0x303
def MIE : BitVec 12 := 0x304
def MTVEC : BitVec 12 := 0x305
def MCOUNTEREN : BitVec 12 := 0x306
def MSTATUSH : BitVec 12 := 0x310
def MCOUNTINHIBIT : BitVec 12 := 0x320
def MSCRATCH : BitVec 12 := 0x340
def MEPC : BitVec 12 := 0x341
def MCAUSE : BitVec 12 := 0x342
def MTVAL : BitVec 12 := 0x343
def MIP : BitVec 12 := 0x344

def MCYCLE : BitVec 12 := 0xB00
def MINSTRET : BitVec 12 := 0xB02
def MCYCLEH : BitVec 12 := 0xB80
def MINSTRETH : BitVec 12 := 0xB82

end Csr

namespace Mstatus

def SIE : BitVec 64 := 1#64 <<< 1
def MIE : BitVec 64 := 1#64 <<< 3
def SPIE : BitVec 64 := 1#64 <<< 5
def MPIE : BitVec 64 := 1#64 <<< 7
def SPP : BitVec 64 := 1#64 <<< 8
def MPP_SHIFT : ℕ := 11
def MPP : BitVec 64 := 3#64 <<< MPP_SHIFT
def FS_SHIFT : ℕ := 13
def FS : BitVec 64 := 3#64 <<< FS_SHIFT
def XS : BitVec 64 := 3#64 <<< 15
def MPRV : BitVec 64 := 1#64 <<< 17
def SUM : BitVec 64 := 1#64 <<< 18
def MXR : BitVec 64 := 1#64 <<< 19
def TVM : BitVec 64 := 1#64 <<< 20
def TW : BitVec 64 := 1#64 <<< 21
def TSR : BitVec 64 := 1#64 <<< 22
def UXL : BitVec 64 := 3#64 <<< 32
def SXL : BitVec 64 := 3#64 <<< 34
def SD : BitVec 64 := 1#64 <<< 63

def WRITABLE : BitVec 64 :=
  SIE ||| MIE ||| SPIE ||| MPIE ||| SPP ||| MPP ||| FS ||| MPRV ||| SUM |||
    MXR ||| TVM ||| TW ||| TSR

/-- The subset visible as `sstatus`. -/
def S_VISIBLE : BitVec 64 :=
  SIE ||| SPIE ||| SPP ||| FS ||| XS ||| SUM ||| MXR ||| UXL ||| SD

end Mstatus

namespace Fcsr

def FLAGS : BitVec 64 := 0x1f
def RM_SHIFT : ℕ := 5
def RM : BitVec 64 := 7#64 <<< RM_SHIFT
def WRITABLE : BitVec 64 := FLAGS ||| RM

end Fcsr

/-! Interrupt bits, shared by `mie`, `mip`, `sie` and `sip`. -/

namespace IntBit

def SSIP : BitVec 64 := 1#64 <<< 1
def MSIP : BitVec 64 := 1#64 <<< 3
def STIP : BitVec 64 := 1#64 <<< 5
def MTIP : BitVec 64 := 1#64 <<< 7
def SEIP : BitVec 64 := 1#64 <<< 9
def MEIP : BitVec 64 := 1#64 <<< 11

/-- The bits a supervisor may see and touch through `sie` and `sip`. -/
def S_VISIBLE : BitVec 64 := SSIP ||| STIP ||| SEIP
def ALL : BitVec 64 := SSIP ||| MSIP ||| STIP ||| MTIP ||| SEIP ||| MEIP

end IntBit

/-! ## The register file -/

structure CsrFile where
  regs : BitVec 12 → BitVec 64
  xlen : Xlen

namespace CsrFile

/-- `misa`: the width in the top two bits, then one bit per extension. -/
def misa (xlen : Xlen) : BitVec 64 :=
  let letters : BitVec 64 :=
    (1#64 <<< 0) ||| (1#64 <<< 2) ||| (1#64 <<< 3) ||| (1#64 <<< 5) ||| (1#64 <<< 8) |||
      (1#64 <<< 12) ||| (1#64 <<< 18) ||| (1#64 <<< 20)
  match xlen with
  | .rv32 => (1#64 <<< 30) ||| letters
  | .rv64 => (2#64 <<< 62) ||| letters

/-- Writes without masking, for state the hart itself maintains. -/
def force (f : CsrFile) (addr : BitVec 12) (value : BitVec 64) : CsrFile :=
  { f with regs := Function.update f.regs addr value }

def setBits (f : CsrFile) (addr : BitVec 12) (bits : BitVec 64) : CsrFile :=
  f.force addr (f.regs addr ||| bits)

def clearBits (f : CsrFile) (addr : BitVec 12) (bits : BitVec 64) : CsrFile :=
  f.force addr (f.regs addr &&& ~~~bits)

def new (xlen : Xlen) : CsrFile :=
  let f : CsrFile := { regs := fun _ => 0, xlen := xlen }
  let f := f.force Csr.MISA (misa xlen)
  match xlen with
  | .rv32 => f
  | .rv64 => f.force Csr.MSTATUS ((2#64 <<< 32) ||| (2#64 <<< 34))

def common : List (BitVec 12) :=
  [Csr.FFLAGS, Csr.FRM, Csr.FCSR, Csr.CYCLE, Csr.TIME, Csr.INSTRET,
    Csr.SSTATUS, Csr.SIE, Csr.STVEC, Csr.SCOUNTEREN, Csr.SSCRATCH, Csr.SEPC,
    Csr.SCAUSE, Csr.STVAL, Csr.SIP, Csr.SATP, Csr.MVENDORID, Csr.MARCHID,
    Csr.MIMPID, Csr.MHARTID, Csr.MSTATUS, Csr.MISA, Csr.MEDELEG, Csr.MIDELEG,
    Csr.MIE, Csr.MTVEC, Csr.MCOUNTEREN, Csr.MCOUNTINHIBIT, Csr.MSCRATCH,
    Csr.MEPC, Csr.MCAUSE, Csr.MTVAL, Csr.MIP, Csr.MCYCLE, Csr.MINSTRET]

/-- The high halves, which exist only on RV32. -/
def highHalves : List (BitVec 12) :=
  [Csr.MSTATUSH, Csr.MCYCLEH, Csr.MINSTRETH, Csr.CYCLEH, Csr.TIMEH,
    Csr.INSTRETH]

def isPmp (addr : BitVec 12) : Bool :=
  (0x3A0 ≤ addr && addr ≤ 0x3AF) || (0x3B0 ≤ addr && addr ≤ 0x3EF)

def existsCsr (f : CsrFile) (addr : BitVec 12) : Bool :=
  common.contains addr || isPmp addr ||
    (f.xlen == .rv32 && highHalves.contains addr)

/-- Whether `mode` may access `addr`.  The minimum privilege lives in bits 9:8
of the number, and bits 11:10 both set mark a read-only register. -/
def accessible (addr : BitVec 12) (mode : Priv) (write : Bool) : Bool :=
  let required := Priv.fromBits (((addr >>> 8) &&& 0x3).setWidth 64)
  if mode < required then false
  else !(write && (addr >>> 10) &&& 0x3 == 0x3)

/-- `mstatus` with its derived SD bit filled in. -/
def status (f : CsrFile) : BitVec 64 :=
  let v := f.regs Csr.MSTATUS
  if v &&& Mstatus.FS = Mstatus.FS ∨ v &&& Mstatus.XS = Mstatus.XS then
    v ||| Mstatus.SD
  else v &&& ~~~Mstatus.SD

/-- The value of a register before it is cut to the width of the hart. -/
def view (f : CsrFile) (addr : BitVec 12) : BitVec 64 :=
  if addr = Csr.FFLAGS then f.regs Csr.FCSR &&& Fcsr.FLAGS
  else if addr = Csr.FRM then (f.regs Csr.FCSR &&& Fcsr.RM) >>> Fcsr.RM_SHIFT
  else if addr = Csr.SSTATUS then f.status &&& Mstatus.S_VISIBLE
  else if addr = Csr.MSTATUS then f.status
  else if addr = Csr.SIE then f.regs Csr.MIE &&& IntBit.S_VISIBLE
  else if addr = Csr.SIP then f.regs Csr.MIP &&& IntBit.S_VISIBLE
  else if addr = Csr.CYCLE then f.regs Csr.MCYCLE
  else if addr = Csr.INSTRET then f.regs Csr.MINSTRET
  else if addr = Csr.CYCLEH then f.regs Csr.MCYCLE >>> 32
  else if addr = Csr.TIMEH then f.regs Csr.TIME >>> 32
  else if addr = Csr.INSTRETH then f.regs Csr.MINSTRET >>> 32
  else if addr = Csr.MCYCLEH then f.regs Csr.MCYCLE >>> 32
  else if addr = Csr.MINSTRETH then f.regs Csr.MINSTRET >>> 32
  else if addr = Csr.MSTATUSH then f.status >>> 32
  else f.regs addr

/-- Reads the architectural value, resolving the supervisor aliases. -/
def read (f : CsrFile) (addr : BitVec 12) : BitVec 64 :=
  if f.xlen = .rv32 then f.view addr &&& 0xffffffff else f.view addr

/-- Whether the MMU of this width implements the scheme a `satp` value
selects: Bare and Sv32, or Bare and Sv39. -/
def satpSupported (xlen : Xlen) (value : BitVec 64) : Bool :=
  match xlen with
  | .rv32 => value >>> 31 ≤ 1
  | .rv64 => (value >>> 60) &&& 0xf == 0 || (value >>> 60) &&& 0xf == 8

def merge (old mask value : BitVec 64) : BitVec 64 :=
  (old &&& ~~~mask) ||| (value &&& mask)

/-- Writes the architectural value, applying WARL masking and resolving the
supervisor aliases onto their machine registers. -/
def write (f : CsrFile) (addr : BitVec 12) (value : BitVec 64) : CsrFile :=
  if addr = Csr.FCSR then f.force Csr.FCSR (value &&& Fcsr.WRITABLE)
  else if addr = Csr.FFLAGS then
    f.force Csr.FCSR (merge (f.regs Csr.FCSR) Fcsr.FLAGS value)
  else if addr = Csr.FRM then
    f.force Csr.FCSR
      (merge (f.regs Csr.FCSR) Fcsr.RM (value <<< Fcsr.RM_SHIFT))
  else if addr = Csr.MSTATUS then
    f.force Csr.MSTATUS (merge (f.regs Csr.MSTATUS) Mstatus.WRITABLE value)
  else if addr = Csr.SSTATUS then
    f.force Csr.MSTATUS
      (merge (f.regs Csr.MSTATUS) (Mstatus.WRITABLE &&& Mstatus.S_VISIBLE)
        value)
  else if addr = Csr.SIE then
    f.force Csr.MIE (merge (f.regs Csr.MIE) IntBit.S_VISIBLE value)
  else if addr = Csr.MIE then f.force Csr.MIE (value &&& IntBit.ALL)
  else if addr = Csr.SIP then
    f.force Csr.MIP (merge (f.regs Csr.MIP) IntBit.SSIP value)
  else if addr = Csr.MIP then
    f.force Csr.MIP
      (merge (f.regs Csr.MIP) (IntBit.SSIP ||| IntBit.MSIP ||| IntBit.STIP)
        value)
  else if addr = Csr.MEPC ∨ addr = Csr.SEPC then f.force addr (value &&& ~~~1)
  else if addr = Csr.MTVEC ∨ addr = Csr.STVEC then
    -- Modes 2 and 3 are reserved and fall back to direct mode.
    f.force addr (if 1 < value &&& 0x3 then value &&& ~~~0x3 else value)
  else if addr = Csr.MISA then f
  else if addr = Csr.SATP then
    if satpSupported f.xlen value then f.force Csr.SATP value else f
  else if addr = Csr.MCYCLEH then
    f.force Csr.MCYCLE
      ((value <<< 32) ||| (f.regs Csr.MCYCLE &&& 0xffffffff))
  else if addr = Csr.MINSTRETH then
    f.force Csr.MINSTRET
      ((value <<< 32) ||| (f.regs Csr.MINSTRET &&& 0xffffffff))
  else if addr = Csr.CYCLE then f.force Csr.MCYCLE value
  else if addr = Csr.INSTRET then f.force Csr.MINSTRET value
  else if addr = Csr.MSTATUSH then
    f.force Csr.MSTATUS
      ((value <<< 32) ||| (f.regs Csr.MSTATUS &&& 0xffffffff))
  else f.force addr value

end CsrFile

end Nanoemu
