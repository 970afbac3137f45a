import Nanoemu.SoundDevices
import Nanoemu.SupervisorCalls

/-!
# The streams of the console

What was typed waits in a queue, and what was printed stays in a log.  Whatever
a step does to the console, bytes leave the queue at its front and join the log
at its end.
-/

namespace Nanoemu

open CheckedProgram

namespace Uart

variable {uart uart' uart'' : Uart} {offset : BitVec 64}

/-- Between two states of the console bytes were typed, taken and sent, in
their order, and nothing else befell the streams. -/
structure Conserves (uart uart' : Uart) (typed taken sent : List (BitVec 8)) :
    Prop where
  rx : uart.rx ++ typed = taken ++ uart'.rx
  tx : uart'.tx = uart.tx ++ sent

theorem conserves_quiet (hrx : uart'.rx = uart.rx) (htx : uart'.tx = uart.tx) :
    Conserves uart uart' [] [] [] := by
  constructor <;> simp [hrx, htx]

theorem Conserves.refl (uart : Uart) : Conserves uart uart [] [] [] :=
  conserves_quiet rfl rfl

theorem Conserves.trans {typed typed' taken taken' sent sent' : List (BitVec 8)}
    (hfirst : Conserves uart uart' typed taken sent)
    (hsecond : Conserves uart' uart'' typed' taken' sent') :
    Conserves uart uart'' (typed ++ typed') (taken ++ taken')
      (sent ++ sent') := by
  constructor
  · rw [← List.append_assoc, hfirst.rx, List.append_assoc, hsecond.rx,
      List.append_assoc]
  · rw [hsecond.tx, hfirst.tx, List.append_assoc]

theorem conserves_typed (uart : Uart) (bytes : List (BitVec 8)) :
    Conserves uart (uart.pushInput bytes) bytes [] [] :=
  ⟨rfl, (List.append_nil _).symm⟩

theorem conserves_putchar (uart : Uart) (byte : BitVec 8) :
    Conserves uart (uart.putchar byte) [] [] [byte] :=
  ⟨List.append_nil _, rfl⟩

theorem conserves_take (uart : Uart) :
    Conserves uart uart.takeInput.2 [] uart.takeInput.1.toList [] := by
  unfold takeInput
  constructor
  · cases uart.rx <;> simp
  · simp

/-- What a read of the data register hands over: the byte that has waited
longest, unless bit 7 of the line control puts the divisor in its place. -/
def handed (uart : Uart) : List (BitVec 8) :=
  if uart.lcr.getLsbD 7 then [] else uart.rx.head?.toList

/-- What a write to the data register sends. -/
def emitted (uart : Uart) (value : BitVec 64) : List (BitVec 8) :=
  if uart.lcr.getLsbD 7 then [] else [value.setWidth 8]

theorem dlab_eq (uart : Uart) : uart.dlab = uart.lcr.getLsbD 7 := by
  rw [dlab, Bool.eq_iff_iff, bne_iff_ne]
  exact BitFields.and_bit_ne_zero uart.lcr 7

theorem read_other (hother : offset ≠ RBR_THR) :
    (uart.read offset).2 = uart := by
  unfold Uart.read
  dsimp only
  rw [if_neg hother]
  split_ifs <;> rfl

theorem write_other (hother : offset ≠ RBR_THR) (value : BitVec 64) :
    Conserves uart (uart.write offset value) [] [] [] := by
  unfold Uart.write
  dsimp only
  rw [if_neg hother]
  split_ifs <;> exact conserves_quiet rfl rfl

theorem conserves_read (uart : Uart) :
    Conserves uart (uart.read RBR_THR).2 [] uart.handed [] := by
  rw [read, if_pos rfl, handed, ← dlab_eq]
  cases uart.dlab with
  | true => exact Conserves.refl uart
  | false => exact conserves_take uart

theorem conserves_write (uart : Uart) (value : BitVec 64) :
    Conserves uart (uart.write RBR_THR value) [] [] (uart.emitted value) := by
  rw [write, if_pos rfl, emitted, ← dlab_eq]
  cases uart.dlab with
  | true => exact conserves_quiet rfl rfl
  | false => exact conserves_putchar uart _

theorem emitted_read (uart : Uart) (value : BitVec 64) :
    (uart.read RBR_THR).2.emitted value = uart.emitted value := by
  rw [read, if_pos rfl]
  cases hdlab : uart.dlab with
  | true => rfl
  | false => rfl

/-- The register answers with the byte it hands over. -/
theorem read_handed {byte : BitVec 8} (hhanded : byte ∈ uart.handed) :
    (uart.read RBR_THR).1 = byte.setWidth 64 := by
  rw [handed, ← dlab_eq] at hhanded
  rw [read, if_pos rfl]
  cases hdlab : uart.dlab with
  | true =>
      rw [hdlab] at hhanded
      cases hhanded
  | false =>
      rw [hdlab, if_neg Bool.false_ne_true, Option.mem_toList] at hhanded
      rw [if_neg Bool.false_ne_true, takeInput, hhanded]
      rfl

end Uart

namespace Memory

/-- Bytes may have been taken and sent, and nothing was typed. -/
def consoleFrame : Frame Memory where
  rel mem mem' := ∃ taken sent, mem.uart.Conserves mem'.uart [] taken sent
  refl mem := ⟨[], [], Uart.Conserves.refl mem.uart⟩
  trans := by
    rintro mem mem' mem'' ⟨taken, sent, hfirst⟩ ⟨taken', sent', hsecond⟩
    exact ⟨taken ++ taken', sent ++ sent', hfirst.trans hsecond⟩

theorem consoleFrame_quiet {mem mem' : Memory} (h : mem'.uart = mem.uart) :
    consoleFrame.rel mem mem' := by
  refine ⟨[], [], ?_⟩
  rw [h]
  exact Uart.Conserves.refl mem.uart

theorem read_streams (addr : BitVec 64) (size : ℕ) :
    (Memory.read addr size).Keeps consoleFrame := by
  apply Program.Keeps.intro
  intro profile mem outcome mem' hrun
  cases read_course hrun with
  | dram | outside => exact consoleFrame.refl mem
  | clint | plic | unmapped => exact consoleFrame_quiet rfl
  | uart =>
      by_cases hdata : addr - Uart.UART_BASE = Uart.RBR_THR
      · rw [hdata]
        exact ⟨_, [], mem.uart.conserves_read⟩
      · exact consoleFrame_quiet (Uart.read_other hdata)

theorem write_streams (addr : BitVec 64) (size : ℕ) (value : BitVec 64) :
    (Memory.write addr size value).Keeps consoleFrame := by
  apply Program.Keeps.intro
  intro profile mem outcome mem' hrun
  cases write_course hrun with
  | dram =>
      unfold stored noteTohost
      split <;> exact consoleFrame_quiet rfl
  | outside => exact consoleFrame.refl mem
  | clint | plic | unmapped => exact consoleFrame_quiet rfl
  | uart =>
      by_cases hdata : addr - Uart.UART_BASE = Uart.RBR_THR
      · rw [hdata]
        exact ⟨[], _, mem.uart.conserves_write value⟩
      · exact ⟨[], [], Uart.write_other hdata value⟩

theorem consoleFrame_respects : Respects consoleFrame :=
  ⟨read_streams, write_streams⟩

end Memory

namespace Cpu

variable {profile : Profile} {c c' : Cpu} {outcome : Except Exception Unit}

/-! ## Steps -/

abbrev streamFrame : Frame Cpu :=
  memFrame Memory.consoleFrame

theorem streamFrame_quiet (h : c'.mem.uart = c.mem.uart) :
    streamFrame.rel c c' :=
  Memory.consoleFrame_quiet h

theorem streamFrame_calls : RespectsCalls streamFrame where
  arg _ _ _ := streamFrame_quiet rfl
  output c byte := ⟨[], [byte], c.mem.uart.conserves_putchar byte⟩
  send _ := streamFrame_quiet rfl
  clear _ := streamFrame_quiet rfl
  timer _ _ := streamFrame_quiet rfl
  flush _ := streamFrame_quiet rfl
  stop _ := streamFrame_quiet rfl
  read addr size := Program.Moves.attempt
    (Program.Keeps.zoom (Memory.read_streams addr size) fun _ _ h => h)

theorem consoleGetchar_streams : consoleGetchar.Moves streamFrame := by
  intro profile c
  apply Program.Ensures.bind
  apply Program.Ensures.read
  apply Program.Ensures.bind
  apply Program.Ensures.update
  exact Program.Ensures.update ⟨_, [], c.mem.uart.conserves_take⟩

theorem answerCall_streams
    (hanswer : answerCall profile c = some (.ok (), c')) :
    streamFrame.rel c c' :=
  (answerCall_ensures streamFrame_calls profile c
    fun _ => consoleGetchar_streams).ok hanswer

theorem ticked_uart (c : Cpu) : c.ticked.mem.uart = c.mem.uart := by
  obtain ⟨huart, -⟩ := tickClint_kept c.counted
  by_cases hscans : Scans c
  · rw [ticked_of_scans hscans]
    exact huart
  · rw [(ticked_of_not_scans hscans).1]
    exact huart

/-- A step, whatever it executes, answers or traps on, only takes and sends. -/
theorem step_streams (hstep : step profile c = some (outcome, c')) :
    streamFrame.rel c c' :=
  step_within Memory.consoleFrame_respects (streamFrame_quiet (ticked_uart c))
    answerCall_streams hstep

end Cpu

end Nanoemu
