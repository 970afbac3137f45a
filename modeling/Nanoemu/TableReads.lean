import Nanoemu.ClintWindow
import Nanoemu.EntryWalk
import Nanoemu.PlicArbitration

/-!
# Translations, wherever the tables lie

The entries a translation reads, the leaf it ends at and the memory it leaves,
also where entries lie in device registers.  Only two registers are changed by
a read: a claim takes a pending source, and the data register takes a byte.
Nothing gives either back, so a walk that met one of them shows it.
-/

namespace Nanoemu

open CheckedProgram

namespace Uart

/-- Reading the data register takes a byte, if one is queued. -/
def QuietAt (uart : Uart) (offset : BitVec 64) : Prop :=
  offset = RBR_THR → uart.dlab = false → uart.rx = []

theorem read_quiet {uart : Uart} {offset : BitVec 64}
    (h : uart.QuietAt offset) : (uart.read offset).2 = uart := by
  by_cases hdata : offset = RBR_THR
  · rw [read, if_pos hdata]
    cases hdlab : uart.dlab with
    | true => rfl
    | false =>
        have hempty : uart.rx = [] := h hdata hdlab
        rw [if_neg Bool.false_ne_true, takeInput, hempty]
        exact congrArg (fun rx => { uart with rx := rx }) hempty.symm
  · rw [read, if_neg hdata]
    dsimp only
    split_ifs <;> rfl

theorem read_quiet_iff (uart : Uart) (offset : BitVec 64) :
    (uart.read offset).2.rx = uart.rx ↔ uart.QuietAt offset := by
  refine ⟨fun hsame hdata hdlab => ?_, fun h => by rw [read_quiet h]⟩
  have htail : (uart.read offset).2.rx = uart.rx.tail := by
    rw [read, if_pos hdata, hdlab]
    rfl
  cases hrx : uart.rx with
  | nil => rfl
  | cons byte rest =>
      have hlength := congrArg List.length (htail.symm.trans hsame)
      rw [hrx, List.tail_cons, List.length_cons] at hlength
      omega

theorem read_drops (uart : Uart) (offset : BitVec 64) :
    ∃ n, (uart.read offset).2 = { uart with rx := uart.rx.drop n } := by
  by_cases hquiet : uart.QuietAt offset
  · exact ⟨0, read_quiet hquiet⟩
  · simp only [QuietAt, not_forall] at hquiet
    obtain ⟨hdata, hdlab, -⟩ := hquiet
    refine ⟨1, ?_⟩
    rw [read, if_pos hdata, hdlab, List.drop_one]
    rfl

theorem write_rx (uart : Uart) (offset value : BitVec 64) :
    (uart.write offset value).rx = uart.rx := by
  rw [write]
  dsimp only [putchar]
  split_ifs <;> rfl

end Uart

namespace Plic

/-- Reading the claim register of a context claims what is pending there. -/
def QuietAt (plic : Plic) (offset : BitVec 64) : Prop :=
  ∀ context : Context, decode offset = .control context.val 4 →
    plic.isPending context = false

theorem read_quiet {plic : Plic} {offset : BitVec 64}
    (h : plic.QuietAt offset) : (plic.read offset).2 = plic := by
  rcases plic.read_cases offset with ⟨context, hclaim⟩ | hsame
  · have hidle := h context hclaim
    rw [isPending, bne_eq_false_iff_eq] at hidle
    rw [read_of_claimRegister plic hclaim, claim]
    dsimp only
    rw [if_pos hidle]
  · exact hsame

theorem read_claims (plic : Plic) (offset : BitVec 64) :
    ∃ bits, (plic.read offset).2 =
      { plic with claimed := plic.claimed ||| bits } := by
  by_cases hquiet : plic.QuietAt offset
  · exact ⟨0, by rw [read_quiet hquiet, BitVec.ofNat_eq_ofNat, BitVec.or_zero]⟩
  · simp only [QuietAt, not_forall] at hquiet
    obtain ⟨context, hclaim, hpending⟩ := hquiet
    refine ⟨sourceBit (plic.best context), ?_⟩
    rw [isPending, Bool.not_eq_false, bne_iff_ne] at hpending
    rw [read_of_claimRegister plic hclaim, claim]
    dsimp only
    rw [if_neg hpending]

theorem read_quiet_iff (plic : Plic) (offset : BitVec 64) :
    (plic.read offset).2.claimed = plic.claimed ↔ plic.QuietAt offset := by
  refine ⟨fun hsame context hclaim => ?_, fun h => by rw [read_quiet h]⟩
  by_contra hnot
  rw [Bool.not_eq_false, isPending, bne_iff_ne] at hnot
  have hbest : plic.Eligible context (plic.best context) :=
    ((plic.best_spec context).resolve_left fun h => hnot h.1).2.1
  rw [read_of_claimRegister plic hclaim, claim] at hsame
  dsimp only at hsame
  rw [if_neg hnot] at hsame
  have hbit := congrArg (fun word => word.getLsbD (plic.best context).val) hsame
  simp only [BitVec.getLsbD_or, getLsbD_sourceBit, decide_true,
    Bool.or_true] at hbit
  cases hbest.unclaimed.symm.trans hbit.symm

/-- A number beyond the sources completes nothing. -/
theorem write_claimed_of_large (plic : Plic) (offset : BitVec 64)
    {value : BitVec 64} (hlarge : 32 ≤ (value.setWidth 32).toNat) :
    (plic.write offset value).claimed = plic.claimed := by
  rcases plic.write_claimed offset value with ⟨source, hcompletes, -⟩ | hsame
  · have hnone : source? (value.setWidth 32) = none :=
      dif_neg (not_lt.mpr hlarge)
    cases hcompletes.2.symm.trans hnone
  · exact hsame

end Plic

namespace Memory

/-! ## Accesses that succeed -/

/-- All of an access lies in DRAM, or it starts in a device. -/
def Mapped (mem : Memory) (addr : BitVec 64) (size : ℕ) : Prop :=
  mem.InDram addr size ∨ addr < DRAM_BASE ∧
    (CLINT_BASE ≤ addr ∧ addr < CLINT_END ∨
      Plic.PLIC_BASE ≤ addr ∧ addr < Plic.PLIC_BASE + Plic.PLIC_SIZE ∨
      Uart.UART_BASE ≤ addr ∧ addr < Uart.UART_BASE + Uart.UART_SIZE)

/-- The devices have the same registers. -/
structure SameDevices (mem mem' : Memory) : Prop where
  clint : mem'.clint = mem.clint
  plic : mem'.plic = mem.plic
  uart : mem'.uart = mem.uart

theorem SameDevices.refl (mem : Memory) : SameDevices mem mem :=
  ⟨rfl, rfl, rfl⟩

theorem SameDevices.symm {mem mem' : Memory} (h : SameDevices mem mem') :
    SameDevices mem' mem :=
  ⟨h.clint.symm, h.plic.symm, h.uart.symm⟩

theorem SameDevices.trans {mem mem' mem'' : Memory}
    (hfirst : SameDevices mem mem') (hsecond : SameDevices mem' mem'') :
    SameDevices mem mem'' :=
  ⟨hsecond.clint.trans hfirst.clint, hsecond.plic.trans hfirst.plic,
    hsecond.uart.trans hfirst.uart⟩

theorem mapped_congr {mem mem' : Memory} {addr : BitVec 64} {size : ℕ}
    (hlen : mem'.dram.len = mem.dram.len) :
    mem'.Mapped addr size ↔ mem.Mapped addr size := by
  unfold Mapped InDram
  rw [hlen]

theorem write_unmapped {mem : Memory} {addr : BitVec 64} {size : ℕ}
    (hout : ¬ mem.Mapped addr size) (value : BitVec 64) (profile : Profile) :
    ∃ mem', Memory.write addr size value profile mem =
        some (.error .unmapped, mem') ∧
      mem'.dram = mem.dram ∧ SameDevices mem mem' := by
  rw [Mapped, not_or] at hout
  obtain ⟨hdram, hdevice⟩ := hout
  by_cases hbase : DRAM_BASE ≤ addr
  · refine ⟨mem, ?_, rfl, SameDevices.refl mem⟩
    rw [Memory.write, if_pos hbase,
      Program.bind_run_ok (Program.read_run _ _ _), index_of_not_inDram hdram]
    rfl
  · have hlow : addr < DRAM_BASE := BitVec.not_le.mp hbase
    have hnone := not_and.mp hdevice hlow
    rw [not_or, not_or] at hnone
    have htouch : touchDevices profile mem =
        some (.ok (), { mem with devicesDirty := true }) := rfl
    refine ⟨{ mem with devicesDirty := true }, ?_, rfl, ⟨rfl, rfl, rfl⟩⟩
    rw [Memory.write, if_neg hbase, Program.bind_run_ok htouch,
      Program.bind_run_ok (Program.read_run _ _ _), Program.ite_run,
      if_neg hnone.1, Program.ite_run, if_neg hnone.2.1, Program.ite_run,
      if_neg hnone.2.2]
    rfl

theorem Mapped.inDram {mem : Memory} {addr : BitVec 64} {size : ℕ}
    (h : mem.Mapped addr size) (hbase : DRAM_BASE ≤ addr) :
    mem.InDram addr size := by
  rcases h with hin | hdevice
  · exact hin
  · exact absurd hdevice.1 (BitVec.not_lt.mpr hbase)

theorem Mapped.inDevice {mem : Memory} {addr : BitVec 64} {size : ℕ}
    (h : mem.Mapped addr size) (hlow : addr < DRAM_BASE) : InDevice addr := by
  rcases h with hin | hdevice
  · exact absurd hlow (BitVec.not_lt.mpr hin.1)
  · exact hdevice

theorem write_mapped {mem : Memory} {addr : BitVec 64} {size : ℕ}
    (hsize : validSize size = true) (hmapped : mem.Mapped addr size)
    (value : BitVec 64) (profile : Profile) :
    (Memory.write addr size value).Ensures profile mem (fun _ _ => True)
      (fun _ _ => False) := by
  intro outcome mem' hrun
  cases write_course hrun with
  | outside hbase hnot => exact hnot ⟨hmapped.inDram hbase, hsize⟩
  | unmapped hlow hnot => exact hnot (hmapped.inDevice hlow)
  | dram | clint | plic | uart => trivial

theorem read_mapped {mem : Memory} {addr : BitVec 64} {size : ℕ}
    (hsize : validSize size = true) (hmapped : mem.Mapped addr size)
    (profile : Profile) :
    (Memory.read addr size).Ensures profile mem (fun _ _ => True)
      (fun _ _ => False) := by
  intro outcome mem' hrun
  cases read_course hrun with
  | outside hbase hnot => exact hnot ⟨hmapped.inDram hbase, hsize⟩
  | unmapped hlow hnot => exact hnot (hmapped.inDevice hlow)
  | dram | clint | plic | uart => trivial

theorem mapped_of_read {mem mem' : Memory} {addr : BitVec 64} {size : ℕ}
    {profile : Profile} {outcome : Except Unmapped (BitVec 64)}
    (hrun : Memory.read addr size profile mem = some (outcome, mem'))
    (hmapped : mem.Mapped addr size) : mem'.Mapped addr size := by
  have hdram : mem'.dram = mem.dram := (read_keeps_dram addr size).of_run hrun
  exact (mapped_congr (congrArg Dram.len hdram)).mpr hmapped

section Uart

variable {addr : BitVec 64}
  (hin : Uart.UART_BASE ≤ addr ∧ addr < Uart.UART_BASE + Uart.UART_SIZE)

include hin

theorem uart_apart : ¬ DRAM_BASE ≤ addr ∧
    ¬ (CLINT_BASE ≤ addr ∧ addr < CLINT_END) ∧ ¬ InPlic addr := by
  have hlow := BitVec.le_def.mp hin.1
  have hhigh := BitVec.lt_def.mp hin.2
  have hbase : Uart.UART_BASE.toNat = 0x10000000 := by decide
  have hend : (Uart.UART_BASE + Uart.UART_SIZE).toNat = 0x10000100 := by decide
  have hplic : (Plic.PLIC_BASE + Plic.PLIC_SIZE).toNat = 0x10000000 := by decide
  have hstart : DRAM_BASE.toNat = 0x80000000 := by decide
  have hstop : CLINT_END.toNat = 0x200C000 := by decide
  unfold InPlic
  rw [BitVec.le_def, BitVec.lt_def, BitVec.le_def, BitVec.lt_def]
  omega

theorem read_uart (size : ℕ) (profile : Profile) (mem : Memory) :
    Memory.read addr size profile mem =
      some (.ok (mem.uart.read (addr - Uart.UART_BASE)).1,
        { mem with
          uart := (mem.uart.read (addr - Uart.UART_BASE)).2
          devicesDirty := true }) := by
  obtain ⟨hdram, hclint, hplic⟩ := uart_apart hin
  have hplic' : ¬ (Plic.PLIC_BASE ≤ addr ∧
      addr < Plic.PLIC_BASE + Plic.PLIC_SIZE) := hplic
  unfold Memory.read touchDevices
  rw [if_neg hdram, Program.bind_run_ok (Program.update_run _ _ _),
    Program.bind_run_ok (Program.read_run _ _ _), if_neg hclint, if_neg hplic',
    if_pos hin]
  rfl

theorem write_uart (size : ℕ) (value : BitVec 64) (profile : Profile)
    (mem : Memory) :
    Memory.write addr size value profile mem =
      some (.ok (), { mem with
        uart := mem.uart.write (addr - Uart.UART_BASE) value
        devicesDirty := true }) := by
  obtain ⟨hdram, hclint, hplic⟩ := uart_apart hin
  have hplic' : ¬ (Plic.PLIC_BASE ≤ addr ∧
      addr < Plic.PLIC_BASE + Plic.PLIC_SIZE) := hplic
  unfold Memory.write touchDevices
  rw [if_neg hdram, Program.bind_run_ok (Program.update_run _ _ _),
    Program.bind_run_ok (Program.read_run _ _ _), if_neg hclint, if_neg hplic',
    if_pos hin]
  rfl

end Uart

/-- Whether a read is answered depends on its address and on the size of DRAM
alone. -/
theorem read_answers {mem mem' after : Memory} {addr v : BitVec 64} {size : ℕ}
    {profile : Profile} (hsize : size ≤ 8)
    (h : Memory.read addr size profile mem = some (.ok v, after))
    (hlen : mem'.dram.len = mem.dram.len) :
    ∃ v' after', Memory.read addr size profile mem' = some (.ok v', after') := by
  cases read_course h with
  | dram hin hvalid =>
      exact ⟨_, _, read_inDram ⟨hin.1, hlen ▸ hin.2⟩ hvalid profile⟩
  | clint _ hclint hread =>
      rw [Clint.read_run _ hclint hsize, Option.map_eq_some_iff] at hread
      obtain ⟨shift, hshift, -⟩ := hread
      rw [Clint.memory_read_run hclint, Clint.read_run _ hclint hsize, hshift]
      exact ⟨_, _, rfl⟩
  | plic _ hplic => exact ⟨_, _, read_plic hplic profile mem'⟩
  | uart _ huart => exact ⟨_, _, read_uart huart size profile mem'⟩

theorem write_answers {mem mem' after : Memory} {addr value : BitVec 64}
    {size : ℕ} {profile : Profile}
    (h : Memory.write addr size value profile mem = some (.ok (), after))
    (hlen : mem'.dram.len = mem.dram.len) :
    ∃ after', Memory.write addr size value profile mem' =
      some (.ok (), after') := by
  cases write_course h with
  | dram hin hvalid =>
      exact ⟨_, write_inDram ⟨hin.1, hlen ▸ hin.2⟩ hvalid value profile⟩
  | clint _ hclint hwrite =>
      rw [Clint.write_run _ hclint, Option.map_eq_some_iff] at hwrite
      obtain ⟨shift, hshift, -⟩ := hwrite
      rw [Clint.memory_write_run hclint, Clint.write_run _ hclint, hshift]
      exact ⟨_, rfl⟩
  | plic _ hplic => exact ⟨_, write_plic hplic profile mem' value⟩
  | uart _ huart => exact ⟨_, write_uart huart size value profile mem'⟩

/-- A read of the address has no side effect on a device. -/
structure QuietAt (mem : Memory) (addr : BitVec 64) : Prop where
  plic : mem.plic.QuietAt (addr - Plic.PLIC_BASE)
  uart : mem.uart.QuietAt (addr - Uart.UART_BASE)

/-- Of the devices, sources may have been claimed and input taken. -/
structure Taken (mem mem' : Memory) : Prop where
  clint : mem'.clint = mem.clint
  plic : ∃ bits, mem'.plic =
    { mem.plic with claimed := mem.plic.claimed ||| bits }
  uart : ∃ n, mem'.uart = { mem.uart with rx := mem.uart.rx.drop n }

theorem Taken.refl (mem : Memory) : Taken mem mem :=
  ⟨rfl, ⟨0, by rw [BitVec.ofNat_eq_ofNat, BitVec.or_zero]⟩, 0, rfl⟩

theorem Taken.trans {mem mem' mem'' : Memory} (hfirst : Taken mem mem')
    (hsecond : Taken mem' mem'') : Taken mem mem'' := by
  obtain ⟨hclint, ⟨bits, hplic⟩, n, huart⟩ := hfirst
  obtain ⟨hclint', ⟨bits', hplic'⟩, n', huart'⟩ := hsecond
  refine ⟨hclint'.trans hclint, ⟨bits ||| bits', ?_⟩, n + n', ?_⟩
  · rw [hplic', hplic, BitVec.or_assoc]
  · rw [huart', huart, List.drop_drop]

/-- What is claimed and what is queued. -/
structure SameQueues (mem mem' : Memory) : Prop where
  claimed : mem'.plic.claimed = mem.plic.claimed
  rx : mem'.uart.rx = mem.uart.rx

theorem SameQueues.trans {mem mem' mem'' : Memory}
    (hfirst : SameQueues mem mem') (hsecond : SameQueues mem' mem'') :
    SameQueues mem mem'' :=
  ⟨hsecond.claimed.trans hfirst.claimed, hsecond.rx.trans hfirst.rx⟩

theorem SameQueues.symm {mem mem' : Memory} (h : SameQueues mem mem') :
    SameQueues mem' mem :=
  ⟨h.claimed.symm, h.rx.symm⟩

theorem SameDevices.queues {mem mem' : Memory} (h : SameDevices mem mem') :
    SameQueues mem mem' :=
  ⟨congrArg Plic.claimed h.plic, congrArg Uart.rx h.uart⟩

theorem Taken.sameDevices {mem mem' : Memory} (h : Taken mem mem')
    (hqueues : SameQueues mem mem') : SameDevices mem mem' := by
  obtain ⟨hclint, ⟨bits, hplic⟩, n, huart⟩ := h
  refine ⟨hclint, ?_, ?_⟩
  · have hclaimed := hqueues.claimed
    rw [hplic] at hclaimed ⊢
    rw [show mem.plic.claimed ||| bits = mem.plic.claimed from hclaimed]
  · have hrx := hqueues.rx
    rw [huart] at hrx ⊢
    rw [show mem.uart.rx.drop n = mem.uart.rx from hrx]

/-- What is claimed grows and what is queued shrinks, whatever else moves. -/
structure Drained (mem mem' : Memory) : Prop where
  claimed : ∃ bits, mem'.plic.claimed = mem.plic.claimed ||| bits
  rx : ∃ n, mem'.uart.rx = mem.uart.rx.drop n

namespace Drained

variable {mem mem' mem'' : Memory}

theorem of_queues (h : SameQueues mem mem') : Drained mem mem' :=
  ⟨⟨0, by rw [h.claimed, BitVec.ofNat_eq_ofNat, BitVec.or_zero]⟩, 0, h.rx⟩

theorem of_taken (h : Taken mem mem') : Drained mem mem' := by
  obtain ⟨-, ⟨bits, hplic⟩, n, huart⟩ := h
  exact ⟨⟨bits, by rw [hplic]⟩, n, by rw [huart]⟩

theorem trans (hfirst : Drained mem mem') (hsecond : Drained mem' mem'') :
    Drained mem mem'' := by
  obtain ⟨⟨bits, hclaimed⟩, n, hrx⟩ := hfirst
  obtain ⟨⟨bits', hclaimed'⟩, n', hrx'⟩ := hsecond
  exact ⟨⟨bits ||| bits', by rw [hclaimed', hclaimed, BitVec.or_assoc]⟩,
    n + n', by rw [hrx', hrx, List.drop_drop]⟩

/-- Nothing that was taken comes back. -/
theorem queues_of (hfirst : Drained mem mem') (hsecond : Drained mem' mem'')
    (hsame : SameQueues mem mem'') : SameQueues mem mem' := by
  obtain ⟨⟨bits, hclaimed⟩, n, hrx⟩ := hfirst
  obtain ⟨⟨bits', hclaimed'⟩, n', hrx'⟩ := hsecond
  constructor
  · rw [hclaimed]
    have hboth := hclaimed'.symm.trans hsame.claimed
    rw [hclaimed] at hboth
    apply BitVec.eq_of_getLsbD_eq
    intro i _
    have hbit := congrArg (fun word => word.getLsbD i) hboth
    simp only [BitVec.getLsbD_or] at hbit ⊢
    revert hbit
    cases mem.plic.claimed.getLsbD i <;> cases bits.getLsbD i <;> simp
  · have hlength := congrArg List.length (hrx'.symm.trans hsame.rx)
    rw [hrx, List.length_drop, List.length_drop] at hlength
    rw [hrx]
    rcases Nat.eq_zero_or_pos n with rfl | hpos
    · rfl
    · have hempty : mem.uart.rx = [] := List.length_eq_zero_iff.mp (by omega)
      rw [hempty, List.drop_nil]

end Drained

/-- Only the claim register of a context is a claim register. -/
theorem inPlic_of_claim {addr : BitVec 64} {context : Plic.Context}
    (hclaim : Plic.decode (addr - Plic.PLIC_BASE) =
      .control context.val 4) : InPlic addr := by
  have hcontext : context.val < 2 := context.isLt
  have hbase : Plic.PLIC_BASE.toNat = 0xC000000 := by decide
  have hend : (Plic.PLIC_BASE + Plic.PLIC_SIZE).toNat = 0x10000000 := by decide
  have haddr : addr.toNat < 2 ^ 64 := addr.isLt
  rw [Plic.decode_eq] at hclaim
  split at hclaim
  · cases hclaim
  split at hclaim
  · cases hclaim
  split at hclaim
  · cases hclaim
  simp only [Plic.Register.control.injEq, BitVec.toNat_sub, hbase] at hclaim
  unfold InPlic
  rw [BitVec.le_def, BitVec.lt_def, hbase, hend]
  omega

theorem QuietAt.congr {mem mem' : Memory} (h : SameDevices mem mem')
    (addr : BitVec 64) : mem'.QuietAt addr ↔ mem.QuietAt addr := by
  constructor
  · rintro ⟨hplic, huart⟩
    rw [h.plic] at hplic
    rw [h.uart] at huart
    exact ⟨hplic, huart⟩
  · rintro ⟨hplic, huart⟩
    rw [← h.plic] at hplic
    rw [← h.uart] at huart
    exact ⟨hplic, huart⟩

theorem quietAt_of_not_plic {mem : Memory} {addr : BitVec 64}
    (hout : ¬ InPlic addr) : mem.plic.QuietAt (addr - Plic.PLIC_BASE) :=
  fun _ hclaim => absurd (inPlic_of_claim hclaim) hout

/-- Only the data register is the data register. -/
theorem quietAt_of_not_uart {mem : Memory} {addr : BitVec 64}
    (hout : addr ≠ Uart.UART_BASE) :
    mem.uart.QuietAt (addr - Uart.UART_BASE) :=
  fun hdata => absurd (BitVec.sub_eq_iff_eq_add.mp hdata) hout

theorem uart_base_not_inPlic : ¬ InPlic Uart.UART_BASE := by
  rintro ⟨-, hhigh⟩
  revert hhigh
  decide

/-- A read takes what it shows. -/
theorem read_taken {profile : Profile} {mem mem' : Memory} {addr : BitVec 64}
    {size : ℕ} {outcome : Except Unmapped (BitVec 64)}
    (hrun : Memory.read addr size profile mem = some (outcome, mem')) :
    mem'.dram = mem.dram ∧ Taken mem mem' ∧
      (SameQueues mem mem' ↔ mem.QuietAt addr) := by
  have hidle : ∀ {flag}, ¬ InPlic addr → addr ≠ Uart.UART_BASE →
      Taken mem { mem with devicesDirty := flag } ∧
        (SameQueues mem { mem with devicesDirty := flag } ↔
          mem.QuietAt addr) := fun hplic huart =>
    ⟨⟨rfl, (Taken.refl mem).plic, (Taken.refl mem).uart⟩, iff_of_true ⟨rfl, rfl⟩
      ⟨quietAt_of_not_plic hplic, quietAt_of_not_uart huart⟩⟩
  cases read_course hrun with
  | dram hin _ =>
      exact ⟨rfl, hidle (fun h => (inPlic_apart h).1 hin.1)
        (fun h => absurd hin.1 (by rw [h]; decide))⟩
  | outside hbase _ =>
      exact ⟨rfl, hidle (fun h => (inPlic_apart h).1 hbase)
        (fun h => absurd hbase (by rw [h]; decide))⟩
  | clint _ hclint _ =>
      exact ⟨rfl, hidle (fun h => (inPlic_apart h).2 hclint)
        (fun h => absurd hclint (by rw [h]; decide))⟩
  | plic _ hplic =>
      have huart : addr ≠ Uart.UART_BASE := fun h =>
        uart_base_not_inPlic (h ▸ hplic)
      refine ⟨rfl, ⟨rfl, mem.plic.read_claims _, 0, rfl⟩, ?_⟩
      constructor
      · intro hsame
        exact ⟨(mem.plic.read_quiet_iff _).mp hsame.claimed,
          quietAt_of_not_uart huart⟩
      · intro hquiet
        exact ⟨(mem.plic.read_quiet_iff _).mpr hquiet.plic, rfl⟩
  | uart hlow huart =>
      have hplic : ¬ InPlic addr := by
        rintro ⟨-, hhigh⟩
        exact absurd huart.1 (BitVec.not_le.mpr hhigh)
      refine ⟨rfl, ⟨rfl, ⟨0, ?_⟩, mem.uart.read_drops _⟩, ?_⟩
      · rw [BitVec.ofNat_eq_ofNat, BitVec.or_zero]
      constructor
      · intro hsame
        exact ⟨quietAt_of_not_plic hplic,
          (mem.uart.read_quiet_iff _).mp hsame.rx⟩
      · intro hquiet
        exact ⟨rfl, (mem.uart.read_quiet_iff _).mpr hquiet.uart⟩
  | unmapped hlow hnot =>
      exact ⟨rfl, hidle (fun h => hnot ⟨hlow, Or.inr (Or.inl h)⟩)
        (fun h => hnot ⟨hlow, Or.inr (Or.inr (by rw [h]; decide))⟩)⟩

end Memory

namespace Mmu

/-! ## The entries of a walk -/

/-- The walk of `va` from `table` reads the given entries, which leaves the
second memory, and ends at the given leaf or at none. -/
inductive Visits (scheme : Mode) (profile : Profile) (va : BitVec 64) :
    (remaining : ℕ) → (table : BitVec 64) → Memory → List (BitVec 64) →
      Option Leaf → Memory → Prop where
  | last {table : BitVec 64} {mem : Memory} :
      Visits scheme profile va 0 table mem [] none mem
  | unmapped {level : ℕ} {table : BitVec 64} {mem mem' : Memory}
      {error : Unmapped} :
      Memory.read (entryAddr scheme va table level) scheme.pteSize profile
        mem = some (.error error, mem') →
      Visits scheme profile va (level + 1) table mem
        [entryAddr scheme va table level] none mem'
  | invalid {level : ℕ} {table pte : BitVec 64} {mem mem' : Memory} :
      Memory.read (entryAddr scheme va table level) scheme.pteSize profile
        mem = some (.ok pte, mem') →
      ¬ ValidEntry pte →
      Visits scheme profile va (level + 1) table mem
        [entryAddr scheme va table level] none mem'
  | leaf {level : ℕ} {table pte : BitVec 64} {mem mem' : Memory} :
      Memory.read (entryAddr scheme va table level) scheme.pteSize profile
        mem = some (.ok pte, mem') →
      ValidEntry pte → ¬ PointerEntry pte →
      Visits scheme profile va (level + 1) table mem
        [entryAddr scheme va table level]
        (some { level := level
                addr := entryAddr scheme va table level
                pte := pte }) mem'
  | pointer {level : ℕ} {table pte : BitVec 64} {mem mem' mem'' : Memory}
      {entries : List (BitVec 64)} {found : Option Leaf} :
      Memory.read (entryAddr scheme va table level) scheme.pteSize profile
        mem = some (.ok pte, mem') →
      ValidEntry pte → PointerEntry pte →
      Visits scheme profile va level (nextTable scheme pte) mem' entries found
        mem'' →
      Visits scheme profile va (level + 1) table mem
        (entryAddr scheme va table level :: entries) found mem''

/-- What a walk that has found a leaf, or none, comes to. -/
inductive Ends (scheme : Mode) (effective : Priv) (status va : BitVec 64)
    (access : Access) (profile : Profile) : Option Leaf → Memory →
      Except Exception (BitVec 64) → Memory → Prop where
  | missing {mem : Memory} :
      Ends scheme effective status va access profile none mem
        (.error (Exception.pageFault access va)) mem
  | denied {reached : Leaf} {mem : Memory} :
      ¬ reached.Grants scheme status effective access →
      Ends scheme effective status va access profile (some reached) mem
        (.error (Exception.pageFault access va)) mem
  | granted {reached : Leaf} {mem after : Memory} :
      reached.Grants scheme status effective access →
      Marks scheme access profile mem reached after →
      Ends scheme effective status va access profile (some reached) mem
        (.ok (reached.target scheme va)) after

section Walks

variable {scheme : Mode} {effective : Priv} {status va : BitVec 64}
  {access : Access} {profile : Profile} {mem mem' : Memory}

theorem leaf_answers {reached : Leaf} (hscheme : scheme ≠ .bare)
    (hlevel : reached.level < scheme.levels)
    (hgrants : reached.Grants scheme status effective access)
    (hmapped : mem.Mapped reached.addr scheme.pteSize) :
    (leaf scheme effective status va access reached.level reached.addr
      reached.pte).Ensures profile mem (fun _ _ => True)
      (fun _ _ => False) := by
  rw [leaf, (reachable_iff _ _ _ _).mpr hgrants.respects_user,
    (permitted_iff _ _ _).mpr hgrants.permits]
  simp only [Bool.not_true, Bool.false_eq_true, if_false]
  rw [splitMask_eq_pure hlevel, Program.check_pure, pure_bind,
    if_neg ((aligned_iff hlevel _).mpr hgrants.aligned)]
  apply Program.Ensures.ite
  · intro _
    apply Program.Ensures.bind
    apply Program.Ensures.mapError
    apply (Memory.write_mapped (validSize_pteSize hscheme) hmapped _ _).mono
    · exact fun _ _ _ => Program.Ensures.check fun _ _ => trivial
    · exact fun _ _ h => h
  · exact fun _ => Program.Ensures.check fun _ _ => trivial

/-- A read of an entry that is mapped leaves it mapped, and only such a read
succeeds. -/
theorem mapped_of_read_ok {addr v : BitVec 64} {size : ℕ}
    (hrun : Memory.read addr size profile mem = some (.ok v, mem')) :
    mem'.Mapped addr size := by
  have hmapped : mem.Mapped addr size := by
    cases Memory.read_course hrun with
    | dram hin _ => exact Or.inl hin
    | clint hlow hin _ => exact Or.inr ⟨hlow, Or.inl hin⟩
    | plic hlow hin => exact Or.inr ⟨hlow, Or.inr (Or.inl hin)⟩
    | uart hlow hin => exact Or.inr ⟨hlow, Or.inr (Or.inr hin)⟩
  exact Memory.mapped_of_read hrun hmapped

theorem not_valid {pte : BitVec 64} (h : ¬ ValidEntry pte) :
    valid pte = false := by
  rw [← Bool.not_eq_true, valid_iff]
  exact h

theorem not_isPointer {pte : BitVec 64} (h : ¬ PointerEntry pte) :
    isPointer pte = false := by
  rw [← Bool.not_eq_true, isPointer_iff]
  exact h

theorem leaf_ends_iff {reached : Leaf} (hscheme : scheme ≠ .bare)
    (hlevel : reached.level < scheme.levels)
    (hmapped : mem.Mapped reached.addr scheme.pteSize)
    {outcome : Except Exception (BitVec 64)} {after : Memory} :
    leaf scheme effective status va access reached.level reached.addr
        reached.pte profile mem = some (outcome, after) ↔
      Ends scheme effective status va access profile (some reached) mem outcome
        after := by
  by_cases hgrants : reached.Grants scheme status effective access
  · constructor
    · intro hrun
      cases outcome with
      | error e =>
          exact ((leaf_answers hscheme hlevel hgrants hmapped).error hrun).elim
      | ok pa =>
          obtain ⟨rfl, hmarks⟩ := (leaf_marks hlevel hgrants pa).mp hrun
          exact .granted hgrants hmarks
    · intro hends
      cases hends with
      | denied hdenied => exact absurd hgrants hdenied
      | granted _ hmarks => exact (leaf_marks hlevel hgrants _).mpr ⟨rfl, hmarks⟩
  · rw [leaf_refused hlevel hgrants]
    constructor
    · intro hrun
      cases hrun
      exact .denied hgrants
    · intro hends
      cases hends with
      | denied _ => rfl
      | granted hgranted _ => exact absurd hgranted hgrants

/-- What a walk finds once its first entry has been read. -/
structure FoundAfter (scheme : Mode) (profile : Profile) (va : BitVec 64)
    (level : ℕ) (table pte : BitVec 64) (mem : Memory) (found : Option Leaf)
    (mem' : Memory) : Prop where
  invalid : ¬ ValidEntry pte → found = none ∧ mem' = mem
  leaf : ValidEntry pte → ¬ PointerEntry pte → mem' = mem ∧
    found = some { level := level
                   addr := entryAddr scheme va table level
                   pte := pte }
  pointer : ValidEntry pte → PointerEntry pte → ∃ entries,
    Visits scheme profile va level (nextTable scheme pte) mem entries found mem'

theorem Visits.cases {level : ℕ} {table : BitVec 64}
    {entries : List (BitVec 64)} {found : Option Leaf}
    (h : Visits scheme profile va (level + 1) table mem entries found mem') :
    ∃ outcome mem₁, Memory.read (entryAddr scheme va table level)
        scheme.pteSize profile mem = some (outcome, mem₁) ∧
      (∀ error, outcome = .error error → found = none ∧ mem' = mem₁) ∧
      ∀ pte, outcome = .ok pte →
        FoundAfter scheme profile va level table pte mem₁ found mem' := by
  cases h with
  | unmapped hread =>
      exact ⟨_, _, hread, fun _ _ => ⟨rfl, rfl⟩, fun _ h => nomatch h⟩
  | invalid hread hinvalid =>
      refine ⟨_, _, hread, fun _ h => (nomatch h), fun pte h => ?_⟩
      cases h
      exact ⟨fun _ => ⟨rfl, rfl⟩, fun h => absurd h hinvalid,
        fun h => absurd h hinvalid⟩
  | leaf hread hvalid hleaf =>
      refine ⟨_, _, hread, fun _ h => (nomatch h), fun pte h => ?_⟩
      cases h
      exact ⟨fun h => absurd hvalid h, fun _ _ => ⟨rfl, rfl⟩,
        fun _ h => absurd h hleaf⟩
  | pointer hread hvalid hpointer hrest =>
      refine ⟨_, _, hread, fun _ h => (nomatch h), fun pte h => ?_⟩
      cases h
      exact ⟨fun h => absurd hvalid h, fun _ h => absurd hpointer h,
        fun _ _ => ⟨_, hrest⟩⟩

/-- A walk takes what its entries show, and nothing exactly if none of them is
a register that a read changes. -/
theorem Visits.taken {remaining : ℕ} {table : BitVec 64}
    {entries : List (BitVec 64)} {found : Option Leaf}
    (h : Visits scheme profile va remaining table mem entries found mem') :
    mem'.dram = mem.dram ∧ Memory.Taken mem mem' ∧
      (Memory.SameQueues mem mem' ↔ ∀ addr ∈ entries, mem.QuietAt addr) := by
  induction h with
  | last =>
      exact ⟨rfl, .refl _, iff_of_true ⟨rfl, rfl⟩ fun _ h => (nomatch h)⟩
  | unmapped hread | invalid hread _ | leaf hread _ _ =>
      rw [List.forall_mem_singleton]
      exact Memory.read_taken hread
  | @pointer _ _ _ mem mem₁ mem' entries _ hread _ _ _ ih =>
      obtain ⟨hdram, htaken, hquiet⟩ := Memory.read_taken hread
      obtain ⟨hdram', htaken', hquiet'⟩ := ih
      refine ⟨hdram'.trans hdram, htaken.trans htaken', ?_⟩
      rw [List.forall_mem_cons, ← hquiet]
      have hmoved : Memory.SameQueues mem mem₁ →
          ((∀ addr ∈ entries, mem₁.QuietAt addr) ↔
            ∀ addr ∈ entries, mem.QuietAt addr) := by
        intro hsame
        have hdevices := htaken.sameDevices hsame
        exact forall₂_congr fun addr _ => Memory.QuietAt.congr hdevices addr
      constructor
      · intro hsame
        have hfirst := (Memory.Drained.of_taken htaken).queues_of
          (.of_taken htaken') hsame
        exact ⟨hfirst, (hmoved hfirst).mp
          (hquiet'.mp (hfirst.symm.trans hsame))⟩
      · rintro ⟨hfirst, hrest⟩
        exact hfirst.trans (hquiet'.mpr ((hmoved hfirst).mpr hrest))

/-- A leaf holds the word that memory has at its address. -/
theorem Visits.leaf_word {remaining : ℕ} {table : BitVec 64}
    {entries : List (BitVec 64)} {found : Option Leaf}
    (h : Visits scheme profile va remaining table mem entries found mem')
    {reached : Leaf} (hfound : found = some reached)
    (hbase : DRAM_BASE ≤ reached.addr) :
    reached.pte = entryAt scheme mem'.dram reached.addr := by
  induction h with
  | last | unmapped _ | invalid _ _ => cases hfound
  | leaf hread _ _ =>
      cases hfound
      cases Memory.read_course hread with
      | dram _ _ => rfl
      | clint hlow _ _ | plic hlow _ | uart hlow _ =>
          exact absurd hlow (BitVec.not_lt.mpr hbase)
  | pointer _ _ _ _ ih => exact ih hfound

/-- Setting the bits of a leaf claims nothing, completes nothing and takes no
input. -/
theorem Marks.queues {reached : Leaf} {after : Memory}
    (h : Marks scheme access profile mem reached after) :
    Memory.SameQueues mem after := by
  unfold Marks at h
  split at h
  · rw [h]
    exact ⟨rfl, rfl⟩
  cases Memory.write_course h with
  | dram _ _ =>
      unfold Memory.stored Memory.noteTohost
      split <;> exact ⟨rfl, rfl⟩
  | clint _ _ _ => exact ⟨rfl, rfl⟩
  | plic _ _ =>
      refine ⟨Plic.write_claimed_of_large _ _ ?_, rfl⟩
      have hbit : ((reached.pte ||| need access).setWidth 32).toNat.testBit 6 =
          true := by
        have hneed : (need access).getLsbD 6 = true := by
          cases access <;> decide
        change ((reached.pte ||| need access).setWidth 32).getLsbD 6 = true
        rw [BitVec.getLsbD_setWidth, BitVec.getLsbD_or, hneed, Bool.or_true]
        rfl
      have hlarge := Nat.ge_two_pow_of_testBit hbit
      omega
  | uart _ _ => exact ⟨rfl, Uart.write_rx _ _ _⟩

theorem Marks.len {reached : Leaf} {after : Memory}
    (h : Marks scheme access profile mem reached after) :
    after.dram.len = mem.dram.len := by
  unfold Marks at h
  split at h
  · rw [h]
  cases Memory.write_course h with
  | dram _ _ => rw [Memory.stored_dram, Dram.storeLe_len]
  | clint _ _ _ | plic _ _ | uart _ _ => rfl

/-- The walker makes exactly the reads of the relation, and ends as the leaf
it has found says. -/
theorem walk_iff (hscheme : scheme ≠ .bare) {remaining : ℕ}
    (hremaining : remaining ≤ scheme.levels) {table : BitVec 64}
    (htable : TableBase table) {outcome : Except Exception (BitVec 64)}
    {after : Memory} :
    walk scheme effective status va access remaining table profile mem =
        some (outcome, after) ↔
      ∃ entries found mem₁,
        Visits scheme profile va remaining table mem entries found mem₁ ∧
          Ends scheme effective status va access profile found mem₁ outcome
            after := by
  induction remaining generalizing table mem with
  | zero =>
      constructor
      · intro hrun
        cases hrun
        exact ⟨[], none, _, .last, .missing⟩
      · rintro ⟨_, _, _, hvisits, hends⟩
        cases hvisits
        cases hends
        rfl
  | succ level ih =>
      have hlevel : level < scheme.levels := hremaining
      rw [walk, pteAddr_eq_pure hscheme hlevel htable, Program.check_pure,
        pure_bind]
      constructor
      · intro hrun
        rcases hread : Memory.read (entryAddr scheme va table level)
            scheme.pteSize profile mem with _ | ⟨error | pte, mem₁⟩
        · rw [Program.bind_run_none (by rw [Program.mapError, hread])] at hrun
          cases hrun
        · rw [Program.bind_run_error (by rw [Program.mapError, hread])] at hrun
          cases hrun
          exact ⟨_, none, _, .unmapped hread, .missing⟩
        rw [Program.bind_run_ok (by rw [Program.mapError, hread])] at hrun
        by_cases hvalid : ValidEntry pte
        · rw [(valid_iff pte).mpr hvalid] at hrun
          simp only [Bool.not_true, Bool.false_eq_true, if_false] at hrun
          by_cases hpointer : PointerEntry pte
          · rw [if_pos ((isPointer_iff pte).mpr hpointer)] at hrun
            rcases Nat.eq_zero_or_pos level with rfl | hpos
            · cases hrun
              exact ⟨_, none, _, .pointer hread hvalid hpointer .last,
                .missing⟩
            rw [if_neg (by omega), (page_mul (ppn_toNat_lt scheme pte)).1,
              Program.check_pure, pure_bind] at hrun
            obtain ⟨entries, found, mem₂, hvisits, hends⟩ :=
              (ih hlevel.le (nextTable_tableBase scheme pte)).mp hrun
            exact ⟨_, found, mem₂, .pointer hread hvalid hpointer hvisits,
              hends⟩
          · rw [not_isPointer hpointer] at hrun
            exact ⟨_, _, mem₁, .leaf hread hvalid hpointer,
              (leaf_ends_iff hscheme hlevel (mapped_of_read_ok hread)).mp hrun⟩
        · rw [not_valid hvalid] at hrun
          cases hrun
          exact ⟨_, none, _, .invalid hread hvalid, .missing⟩
      · rintro ⟨entries, found, mem₂, hvisits, hends⟩
        obtain ⟨read, mem₁, hread, herror, hok⟩ := hvisits.cases
        cases read with
        | error error =>
            obtain ⟨rfl, rfl⟩ := herror error rfl
            cases hends
            rw [Program.bind_run_error (by rw [Program.mapError, hread])]
        | ok pte =>
            have hfound := hok pte rfl
            rw [Program.bind_run_ok (by rw [Program.mapError, hread])]
            by_cases hvalid : ValidEntry pte
            · rw [(valid_iff pte).mpr hvalid]
              simp only [Bool.not_true, Bool.false_eq_true, if_false]
              by_cases hpointer : PointerEntry pte
              · obtain ⟨rest, hrest⟩ := hfound.pointer hvalid hpointer
                rw [if_pos ((isPointer_iff pte).mpr hpointer)]
                rcases Nat.eq_zero_or_pos level with rfl | hpos
                · cases hrest
                  cases hends
                  rfl
                · rw [if_neg (by omega), (page_mul (ppn_toNat_lt scheme pte)).1,
                    Program.check_pure, pure_bind]
                  exact (ih hlevel.le (nextTable_tableBase scheme pte)).mpr
                    ⟨rest, found, mem₂, hrest, hends⟩
              · obtain ⟨rfl, rfl⟩ := hfound.leaf hvalid hpointer
                rw [not_isPointer hpointer]
                exact (leaf_ends_iff hscheme hlevel
                  (mapped_of_read_ok hread)).mpr hends
            · obtain ⟨rfl, rfl⟩ := hfound.invalid hvalid
              cases hends
              rw [not_valid hvalid]
              rfl

end Walks

end Mmu

namespace Cpu

open Mmu

/-! ## The translations of a hart -/

/-- The access is made at the addresses it is given. -/
def Untranslated (c : Cpu) (access : Access) : Prop :=
  c.scheme = .bare ∨ c.effective access = .machine

instance (c : Cpu) (access : Access) : Decidable (c.Untranslated access) :=
  inferInstanceAs (Decidable (_ ∨ _))

/-- The walk that the hart makes for an address that is not cached. -/
def Looks (profile : Profile) (c : Cpu) (va : BitVec 64)
    (entries : List (BitVec 64)) (found : Option Leaf) (mem : Memory) : Prop :=
  (c.scheme = .sv39 → Canonical va) ∧
    Visits c.scheme profile va c.scheme.levels
      (rootTable c.scheme (c.csrs.read Csr.SATP)) c.mem entries found mem

/-- How the hart translates an address: the entries it reads, the leaf it
marks, the page it finds, if any, and the memory it leaves. -/
inductive Translates (profile : Profile) (c : Cpu) (va : BitVec 64)
    (access : Access) : List (BitVec 64) → Option Leaf → Option (BitVec 64) →
      Memory → Prop where
  | cached : c.tlbHit va access = true →
      Translates profile c va access [] none
        (some (c.tlb (tlbSlot va) access).ppn) c.mem
  | direct : c.tlbHit va access = false → c.Untranslated access →
      Translates profile c va access [] none (some (va &&& ~~~0xfff)) c.mem
  | far : c.tlbHit va access = false → ¬ c.Untranslated access →
      c.scheme = .sv39 → ¬ Canonical va →
      Translates profile c va access [] none none c.mem
  | missing {entries : List (BitVec 64)} {mem : Memory} :
      c.tlbHit va access = false → ¬ c.Untranslated access →
      Looks profile c va entries none mem →
      Translates profile c va access entries none none mem
  | denied {entries : List (BitVec 64)} {reached : Leaf} {mem : Memory} :
      c.tlbHit va access = false → ¬ c.Untranslated access →
      Looks profile c va entries (some reached) mem →
      ¬ reached.Grants c.scheme (c.csrs.read Csr.MSTATUS) (c.effective access)
        access →
      Translates profile c va access entries none none mem
  | granted {entries : List (BitVec 64)} {reached : Leaf}
      {mem after : Memory} :
      c.tlbHit va access = false → ¬ c.Untranslated access →
      Looks profile c va entries (some reached) mem →
      reached.Grants c.scheme (c.csrs.read Csr.MSTATUS) (c.effective access)
        access →
      Marks c.scheme access profile mem reached after →
      Translates profile c va access entries (some reached)
        (some (reached.target c.scheme va &&& ~~~0xfff)) after

/-- What the hart answers, and the hart that has cached the page. -/
def answer (c : Cpu) (va : BitVec 64) (access : Access)
    (page : Option (BitVec 64)) (mem : Memory) :
    Except Exception (BitVec 64) × Cpu :=
  match page with
  | none => (.error (Exception.pageFault access va), { c with mem := mem })
  | some page =>
      (.ok (page ||| (va &&& 0xfff)),
        if c.tlbHit va access then c
        else ({ c with mem := mem }).setTlb va access (c.cachedEntry va page))

section Translations

variable {profile : Profile} {c c' : Cpu} {va : BitVec 64} {access : Access}

theorem walker_iff (hpaged : ¬ c.Untranslated access)
    {outcome : Except Exception (BitVec 64)} {after : Memory} :
    c.walker va access profile c.mem = some (outcome, after) ↔
      c.scheme = .sv39 ∧ ¬ Canonical va ∧
          outcome = .error (Exception.pageFault access va) ∧ after = c.mem ∨
        ∃ entries found mem, Looks profile c va entries found mem ∧
          Mmu.Ends c.scheme (c.effective access) (c.csrs.read Csr.MSTATUS) va
            access profile found mem outcome after := by
  obtain ⟨hscheme, heffective⟩ := not_or.mp hpaged
  unfold walker
  rw [translate_eq_walk hscheme heffective]
  by_cases hfar : c.scheme = .sv39 ∧ ¬ Canonical va
  · have hbad : Mode.of (c.csrs.read Csr.SATP) c.xlen = .sv39 ∧
        !canonical va := by
      refine ⟨hfar.1, ?_⟩
      rw [Bool.not_eq_true', ← Bool.not_eq_true, canonical_iff]
      exact hfar.2
    rw [if_pos hbad]
    constructor
    · intro hrun
      cases hrun
      exact Or.inl ⟨hfar.1, hfar.2, rfl, rfl⟩
    · rintro (⟨-, -, rfl, rfl⟩ | ⟨_, _, _, hlooks, -⟩)
      · rfl
      · exact absurd (hlooks.1 hfar.1) hfar.2
  · have hnear : c.scheme = .sv39 → Canonical va := by
      intro hsv39
      by_contra hnot
      exact hfar ⟨hsv39, hnot⟩
    have hgood : ¬ (Mode.of (c.csrs.read Csr.SATP) c.xlen = .sv39 ∧
        !canonical va) := by
      rintro ⟨hsv39, hnot⟩
      rw [(canonical_iff va).mpr (hnear hsv39)] at hnot
      exact absurd hnot (by decide)
    rw [if_neg hgood]
    refine (walk_iff hscheme le_rfl (rootTable_tableBase c.scheme _)).trans ?_
    constructor
    · rintro ⟨entries, found, mem, hvisits, hends⟩
      exact Or.inr ⟨entries, found, mem, ⟨hnear, hvisits⟩, hends⟩
    · rintro (⟨hsv39, hnot, -, -⟩ | ⟨entries, found, mem, hlooks, hends⟩)
      · exact absurd ⟨hsv39, hnot⟩ hfar
      · exact ⟨entries, found, mem, hlooks.2, hends⟩

theorem cachedEntry_page (c : Cpu) (va pa : BitVec 64) :
    c.cachedEntry va (pa &&& ~~~0xfff) = c.cachedEntry va pa := by
  unfold cachedEntry
  rw [BitVec.and_assoc, BitVec.and_self]

/-- An address with the offset of `va` is the answer for its page. -/
theorem answer_of_miss (hmiss : c.tlbHit va access = false) {pa : BitVec 64}
    (hoffset : pa &&& 0xfff = va &&& 0xfff) (mem : Memory) :
    c.answer va access (some (pa &&& ~~~0xfff)) mem =
      (.ok pa, ({ c with mem := mem }).setTlb va access
        (c.cachedEntry va pa)) := by
  unfold answer
  dsimp only
  rw [hmiss, if_neg Bool.false_ne_true, cachedEntry_page,
    ← eq_of_page_and_offset rfl hoffset]

theorem Looks.offset (hpaged : ¬ c.Untranslated access)
    {entries : List (BitVec 64)} {reached : Leaf} {mem after : Memory}
    (hlooks : Looks profile c va entries (some reached) mem)
    (hgrants : reached.Grants c.scheme (c.csrs.read Csr.MSTATUS)
      (c.effective access) access)
    (hmarks : Marks c.scheme access profile mem reached after) :
    reached.target c.scheme va &&& 0xfff = va &&& 0xfff := by
  have hrun := (walker_iff hpaged).mpr (Or.inr
    ⟨entries, some reached, mem, hlooks, .granted hgrants hmarks⟩)
  exact (Mmu.translate_offset _ _ _ _ va access profile c.mem).ok hrun

theorem translate_iff {outcome : Except Exception (BitVec 64)} :
    translate va access profile c = some (outcome, c') ↔
      ∃ entries found page mem,
        Translates profile c va access entries found page mem ∧
          (outcome, c') = c.answer va access page mem := by
  cases hhit : c.tlbHit va access with
  | true =>
      rw [translate_hit hhit]
      constructor
      · intro hrun
        cases hrun
        refine ⟨[], none, _, _, .cached hhit, ?_⟩
        unfold answer
        rw [hhit]
        rfl
      · rintro ⟨entries, found, page, mem, htranslates, heq⟩
        cases htranslates with
        | cached _ =>
            unfold answer at heq
            rw [hhit] at heq
            exact congrArg some heq.symm
        | direct hmiss | far hmiss | missing hmiss | denied hmiss
        | granted hmiss => cases hhit.symm.trans hmiss
  | false =>
      rw [translate_miss hhit]
      by_cases hdirect : c.Untranslated access
      · have hwalker : c.walker va access profile c.mem =
            some (.ok va, c.mem) := by
          have hbare : Mode.of (c.csrs.read Csr.SATP) c.xlen = .bare ∨
              effectivePriv (c.csrs.read Csr.MSTATUS) c.privMode access =
                .machine := hdirect
          unfold walker Mmu.translate
          rw [if_pos hbare]
          rfl
        rw [hwalker]
        constructor
        · intro hrun
          cases hrun
          exact ⟨[], none, _, _, .direct hhit hdirect,
            (answer_of_miss hhit rfl c.mem).symm⟩
        · rintro ⟨entries, found, page, mem, htranslates, heq⟩
          cases htranslates with
          | cached hhit' => cases hhit.symm.trans hhit'
          | direct _ _ =>
              rw [answer_of_miss hhit rfl] at heq
              exact congrArg some heq.symm
          | far _ hpaged | missing _ hpaged | denied _ hpaged
          | granted _ hpaged => exact absurd hdirect hpaged
      · constructor
        · intro hrun
          rcases hwalk : c.walker va access profile c.mem with
            _ | ⟨error | pa, after⟩
          · rw [hwalk] at hrun
            cases hrun
          · rw [hwalk] at hrun
            cases hrun
            rcases (walker_iff hdirect).mp hwalk with
              ⟨hsv39, hfar, herror, rfl⟩ |
              ⟨entries, found, mem, hlooks, hends⟩
            · cases herror
              exact ⟨_, _, _, _, .far hhit hdirect hsv39 hfar, rfl⟩
            · cases hends with
              | missing =>
                  exact ⟨_, _, _, _, .missing hhit hdirect hlooks, rfl⟩
              | denied hdenied =>
                  exact ⟨_, _, _, _, .denied hhit hdirect hlooks hdenied, rfl⟩
          · rw [hwalk] at hrun
            cases hrun
            rcases (walker_iff hdirect).mp hwalk with
              ⟨-, -, herror, -⟩ | ⟨entries, found, mem, hlooks, hends⟩
            · cases herror
            · cases hends with
              | granted hgrants hmarks =>
                  exact ⟨_, _, _, _,
                    .granted hhit hdirect hlooks hgrants hmarks,
                    (answer_of_miss hhit (hlooks.offset hdirect hgrants hmarks)
                      after).symm⟩
        · rintro ⟨entries, found, page, mem, htranslates, heq⟩
          cases htranslates with
          | cached hhit' => cases hhit.symm.trans hhit'
          | direct _ hdirect' => exact absurd hdirect' hdirect
          | far _ _ hsv39 hfar =>
              rw [(walker_iff hdirect).mpr
                (Or.inl ⟨hsv39, hfar, rfl, rfl⟩)]
              exact congrArg some heq.symm
          | missing _ _ hlooks =>
              rw [(walker_iff hdirect).mpr
                (Or.inr ⟨_, _, _, hlooks, .missing⟩)]
              exact congrArg some heq.symm
          | denied _ _ hlooks hdenied =>
              rw [(walker_iff hdirect).mpr
                (Or.inr ⟨_, _, _, hlooks, .denied hdenied⟩)]
              exact congrArg some heq.symm
          | granted _ _ hlooks hgrants hmarks =>
              rw [(walker_iff hdirect).mpr
                (Or.inr ⟨_, _, _, hlooks, .granted hgrants hmarks⟩)]
              rw [answer_of_miss hhit (hlooks.offset hdirect hgrants hmarks)]
                at heq
              exact congrArg some heq.symm

theorem translates_direct_iff {access : Access} (hdirect : c.Untranslated access)
    (hmiss : c.tlbHit va access = false) {entries : List (BitVec 64)}
    {found : Option Leaf} {page : Option (BitVec 64)} {mem : Memory} :
    Translates profile c va access entries found page mem ↔
      entries = [] ∧ found = none ∧ page = some (va &&& ~~~0xfff) ∧
        mem = c.mem := by
  constructor
  · intro h
    cases h with
    | cached hhit => cases hmiss.symm.trans hhit
    | direct => exact ⟨rfl, rfl, rfl, rfl⟩
    | far _ hpaged | missing _ hpaged | denied _ hpaged | granted _ hpaged =>
        exact absurd hdirect hpaged
  · rintro ⟨rfl, rfl, rfl, rfl⟩
    exact .direct hmiss hdirect

theorem Translates.answer_mem {entries : List (BitVec 64)}
    {found : Option Leaf} {page : Option (BitVec 64)} {mem : Memory}
    (h : Translates profile c va access entries found page mem) :
    (c.answer va access page mem).2.mem = mem := by
  unfold answer
  cases h with
  | cached hhit =>
      dsimp only
      rw [hhit, if_pos rfl]
  | direct hmiss | granted hmiss =>
      dsimp only
      rw [hmiss, if_neg Bool.false_ne_true]
      rfl
  | far | missing | denied => rfl

/-- Only a walk finds a leaf. -/
theorem Translates.paged {entries : List (BitVec 64)} {found : Option Leaf}
    {page : Option (BitVec 64)} {mem : Memory}
    (h : Translates profile c va access entries found page mem) {reached : Leaf}
    (hfound : found = some reached) : c.scheme ≠ .bare := by
  cases h with
  | cached | direct | far | missing | denied => cases hfound
  | granted _ hpaged => exact (not_or.mp hpaged).1

/-- The memory a translation leaves: its entries have been read, and then the
bits of the leaf it found were set. -/
theorem Translates.reads {entries : List (BitVec 64)} {found : Option Leaf}
    {page : Option (BitVec 64)} {mem : Memory}
    (h : Translates profile c va access entries found page mem) :
    ∃ read, read.dram = c.mem.dram ∧ Memory.Taken c.mem read ∧
      (Memory.SameQueues c.mem read ↔ ∀ addr ∈ entries, c.mem.QuietAt addr) ∧
      (found = none → mem = read) ∧
      ∀ reached, found = some reached →
        Marks c.scheme access profile read reached mem ∧
        (DRAM_BASE ≤ reached.addr →
          reached.pte = entryAt c.scheme read.dram reached.addr) := by
  have hnothing : Memory.SameQueues c.mem c.mem ↔
      ∀ addr ∈ ([] : List (BitVec 64)), c.mem.QuietAt addr :=
    iff_of_true ⟨rfl, rfl⟩ fun _ h => nomatch h
  cases h with
  | cached _ | direct _ _ | far _ _ _ _ =>
      exact ⟨c.mem, rfl, .refl _, hnothing, fun _ => rfl, fun _ h => nomatch h⟩
  | missing _ _ hlooks | denied _ _ hlooks _ =>
      obtain ⟨hdram, htaken, hquiet⟩ := hlooks.2.taken
      exact ⟨mem, hdram, htaken, hquiet, fun _ => rfl, fun _ h => nomatch h⟩
  | @granted _ reached read _ _ _ hlooks _ hmarks =>
      obtain ⟨hdram, htaken, hquiet⟩ := hlooks.2.taken
      refine ⟨read, hdram, htaken, hquiet, fun h => (nomatch h), ?_⟩
      intro other hother
      cases hother
      exact ⟨hmarks, hlooks.2.leaf_word rfl⟩

theorem Translates.len {entries : List (BitVec 64)} {found : Option Leaf}
    {page : Option (BitVec 64)} {mem : Memory}
    (h : Translates profile c va access entries found page mem) :
    mem.dram.len = c.mem.dram.len := by
  obtain ⟨read, hdram, -, -, hnone, hsome⟩ := h.reads
  rw [← hdram]
  cases found with
  | none => rw [hnone rfl]
  | some reached => exact (hsome reached rfl).1.len

theorem physRead_ok_iff {fault : Exception} {pa v : BitVec 64} {size : ℕ} :
    physRead fault pa size profile c = some (.ok v, c') ↔
      ∃ mem, Memory.read pa size profile c.mem = some (.ok v, mem) ∧
        c' = { c with mem := mem } := by
  rw [physRead, onMemory, Program.zoom, Program.mapError]
  constructor
  · intro hrun
    rcases hread : Memory.read pa size profile c.mem with _ | ⟨_ | _, mem⟩
    · rw [hread] at hrun
      cases hrun
    · rw [hread] at hrun
      cases hrun
    · rw [hread] at hrun
      cases hrun
      exact ⟨mem, rfl, rfl⟩
  · rintro ⟨mem, hread, rfl⟩
    rw [hread]

/-- A translated read reads the address its page gives. -/
theorem load_iff {fault : Exception} {size : ℕ} {v : BitVec 64} :
    (translate va .load >>= fun pa => physRead fault pa size) profile c =
        some (.ok v, c') ↔
      ∃ entries found page mem mem',
        Translates profile c va .load entries found (some page) mem ∧
          Memory.read (page ||| (va &&& 0xfff)) size profile mem =
            some (.ok v, mem') ∧
          c' = { (c.answer va .load (some page) mem).2 with mem := mem' } := by
  constructor
  · intro hrun
    obtain ⟨pa, c₁, htranslate, hread⟩ := Program.bind_ok hrun
    obtain ⟨entries, found, page, mem, htranslates, hanswer⟩ :=
      translate_iff.mp htranslate
    cases page with
    | none => cases hanswer
    | some page =>
        have hpa : pa = page ||| (va &&& 0xfff) :=
          Except.ok.inj (congrArg Prod.fst hanswer)
        have hc₁ : c₁ = (c.answer va .load (some page) mem).2 :=
          congrArg Prod.snd hanswer
        subst hpa
        obtain ⟨mem', hmem, hc'⟩ := physRead_ok_iff.mp hread
        rw [hc₁, htranslates.answer_mem] at hmem
        exact ⟨entries, found, page, mem, mem', htranslates, hmem,
          hc₁ ▸ hc'⟩
  · rintro ⟨entries, found, page, mem, mem', htranslates, hread, rfl⟩
    rw [Program.bind_run_ok (translate_iff.mpr
      ⟨entries, found, some page, mem, htranslates, rfl⟩)]
    rw [← htranslates.answer_mem] at hread
    exact physRead_ok_iff.mpr ⟨mem', hread, rfl⟩

/-- A load within a page reads the address its page gives. -/
theorem readMem_within_iff {size : ℕ}
    (hfits : fitsPage va size profile = some true) {v : BitVec 64} :
    readMem va size profile c = some (.ok v, c') ↔
      ∃ entries found page mem mem',
        Translates profile c va .load entries found (some page) mem ∧
          Memory.read (page ||| (va &&& 0xfff)) size profile mem =
            some (.ok v, mem') ∧
          c' = { (c.answer va .load (some page) mem).2 with mem := mem' } := by
  rw [readMem, Program.bind_run_ok (Program.check_run_some hfits c), if_pos rfl]
  exact load_iff

end Translations

end Cpu

end Nanoemu
