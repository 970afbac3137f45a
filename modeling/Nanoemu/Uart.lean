import Mathlib.Tactic

/-!
# The NS16550a console

Eight byte-wide registers, two of which change meaning with the DLAB bit of a
third.  The echo of transmitted bytes to the host's standard output is not
part of the machine and is left out.
-/

namespace Nanoemu

namespace Uart

def UART_BASE : BitVec 64 := 0x10000000
def UART_SIZE : BitVec 64 := 0x100
def UART_IRQ : BitVec 32 := 10

def RBR_THR : BitVec 64 := 0
def IER : BitVec 64 := 1
def IIR_FCR : BitVec 64 := 2
def LCR : BitVec 64 := 3
def MCR : BitVec 64 := 4
def LSR : BitVec 64 := 5
def MSR : BitVec 64 := 6
def SCR : BitVec 64 := 7

def LSR_DATA_READY : BitVec 8 := 1#8 <<< 0
def LSR_THR_EMPTY : BitVec 8 := 1#8 <<< 5
def LSR_TRANSMITTER_EMPTY : BitVec 8 := 1#8 <<< 6

def IER_RX : BitVec 8 := 1#8 <<< 0
def IER_THR : BitVec 8 := 1#8 <<< 1

def LCR_DLAB : BitVec 8 := 1#8 <<< 7

end Uart

structure Uart where
  /-- Input bytes the guest has not read yet, oldest first. -/
  rx : List (BitVec 8)
  /-- Everything the guest has written. -/
  tx : List (BitVec 8)
  ier : BitVec 8
  fcr : BitVec 8
  lcr : BitVec 8
  mcr : BitVec 8
  scr : BitVec 8
  divisorLow : BitVec 8
  divisorHigh : BitVec 8
deriving DecidableEq, Repr

namespace Uart

def default : Uart :=
  { rx := [], tx := [], ier := 0, fcr := 0, lcr := 0, mcr := 0, scr := 0
    divisorLow := 0, divisorHigh := 0 }

/-- Queues bytes for the guest to read, as though someone typed them. -/
def pushInput (uart : Uart) (bytes : List (BitVec 8)) : Uart :=
  { uart with rx := uart.rx ++ bytes }

def hasInput (uart : Uart) : Bool :=
  !uart.rx.isEmpty

/-- Takes one queued input byte, if any. -/
def takeInput (uart : Uart) : Option (BitVec 8) × Uart :=
  (uart.rx.head?, { uart with rx := uart.rx.tail })

def lineStatus (uart : Uart) : BitVec 8 :=
  let s := LSR_THR_EMPTY ||| LSR_TRANSMITTER_EMPTY
  if uart.hasInput then s ||| LSR_DATA_READY else s

def isInterrupting (uart : Uart) : Bool :=
  (uart.ier &&& IER_RX != 0 && uart.hasInput) || uart.ier &&& IER_THR != 0

/-- The interrupt identification register, highest priority first. -/
def iir (uart : Uart) : BitVec 8 :=
  let FIFO_ENABLED : BitVec 8 := 0xC0
  if uart.ier &&& IER_RX ≠ 0 ∧ uart.hasInput then FIFO_ENABLED ||| 0x04
  else if uart.ier &&& IER_THR ≠ 0 then FIFO_ENABLED ||| 0x02
  else FIFO_ENABLED ||| 0x01

def dlab (uart : Uart) : Bool :=
  uart.lcr &&& LCR_DLAB != 0

def read (uart : Uart) (offset : BitVec 64) : BitVec 64 × Uart :=
  let quiet (v : BitVec 8) : BitVec 64 × Uart := (v.setWidth 64, uart)
  if offset = RBR_THR then
    if uart.dlab then quiet uart.divisorLow
    else
      let (byte, uart) := uart.takeInput
      ((byte.getD 0).setWidth 64, uart)
  else if offset = IER then
    if uart.dlab then quiet uart.divisorHigh else quiet uart.ier
  else if offset = IIR_FCR then quiet uart.iir
  else if offset = LCR then quiet uart.lcr
  else if offset = MCR then quiet uart.mcr
  else if offset = LSR then quiet uart.lineStatus
  else if offset = MSR then quiet 0xB0
  else if offset = SCR then quiet uart.scr
  else quiet 0

/-- Puts a byte on the wire directly, bypassing the register decode. -/
def putchar (uart : Uart) (byte : BitVec 8) : Uart :=
  { uart with tx := uart.tx ++ [byte] }

def write (uart : Uart) (offset value : BitVec 64) : Uart :=
  let value : BitVec 8 := value.setWidth 8
  if offset = RBR_THR then
    if uart.dlab then { uart with divisorLow := value }
    else uart.putchar value
  else if offset = IER then
    if uart.dlab then { uart with divisorHigh := value }
    else { uart with ier := value }
  else if offset = IIR_FCR then { uart with fcr := value }
  else if offset = LCR then { uart with lcr := value }
  else if offset = MCR then { uart with mcr := value }
  else if offset = SCR then { uart with scr := value }
  else uart

end Uart

end Nanoemu
