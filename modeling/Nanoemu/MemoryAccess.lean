import Nanoemu.Memory

/-!
# What physical accesses do

The little-endian words of DRAM bit by bit, and what each outcome of a
physical read or write says about the memory before and after it.
-/

namespace Nanoemu

open CheckedProgram

namespace Dram

theorem getLsbD_loadLe (dram : Dram) (i count j : ℕ) (hcount : count ≤ 8) :
    (dram.loadLe i count).getLsbD j =
      (decide (j < 8 * count) &&
        (dram.byte (i + j / 8)).getLsbD (j % 8)) := by
  induction count generalizing i j with
  | zero => simp [loadLe]
  | succ count ih =>
      rw [loadLe, BitVec.getLsbD_or, BitVec.getLsbD_setWidth,
        BitVec.getLsbD_shiftLeft]
      by_cases hlow : j < 8
      · have hdiv : j / 8 = 0 := Nat.div_eq_of_lt hlow
        have hmod : j % 8 = j := Nat.mod_eq_of_lt hlow
        have hword : j < 64 := by omega
        have hin : j < 8 * (count + 1) := by omega
        simp [hlow, hdiv, hmod, hword, hin]
      · have hbyte : (dram.byte i).getLsbD j = false :=
          BitVec.getLsbD_of_ge _ _ (not_lt.mp hlow)
        have hdiv : i + 1 + (j - 8) / 8 = i + j / 8 := by omega
        have hmod : (j - 8) % 8 = j % 8 := by omega
        have hin : j - 8 < 8 * count ↔ j < 8 * (count + 1) := by omega
        rw [ih (i + 1) (j - 8) (by omega), hbyte, hdiv, hmod]
        by_cases hrange : j < 8 * (count + 1)
        · have hword : j < 64 := by omega
          simp [hlow, hin, hrange, hword]
        · simp [hin, hrange]

theorem loadLe_congr {dram dram' : Dram} {i count : ℕ}
    (hbytes : ∀ j, i ≤ j → j < i + count → dram.byte j = dram'.byte j) :
    dram.loadLe i count = dram'.loadLe i count := by
  induction count generalizing i with
  | zero => rfl
  | succ count ih =>
      rw [loadLe, loadLe, hbytes i le_rfl (by omega),
        ih fun j hle hlt => hbytes j (by omega) (by omega)]

theorem getLsbD_loadLe_of_ge (dram : Dram) {i count j : ℕ} (hcount : count ≤ 8)
    (hj : 8 * count ≤ j) : (dram.loadLe i count).getLsbD j = false := by
  rw [getLsbD_loadLe dram i count j hcount]
  simp [not_lt.mpr hj]

theorem getLsbD_leByte (value : BitVec 64) (k b : ℕ) (hb : b < 8) :
    (leByte value k).getLsbD b = value.getLsbD (8 * k + b) := by
  rw [leByte, BitVec.getLsbD_setWidth, BitVec.getLsbD_ushiftRight]
  simp [hb]

@[simp] theorem storeLe_len (dram : Dram) (i count : ℕ) (value : BitVec 64) :
    (dram.storeLe i count value).len = dram.len := rfl

theorem storeLe_byte_outside (dram : Dram) {i count j : ℕ}
    (value : BitVec 64) (hj : ¬ (i ≤ j ∧ j < i + count)) :
    (dram.storeLe i count value).byte j = dram.byte j := by
  simp [storeLe, hj]

theorem loadLe_storeLe (dram : Dram) {i count : ℕ} {value : BitVec 64}
    (hcount : count ≤ 8)
    (hvalue : ∀ j, 8 * count ≤ j → value.getLsbD j = false) :
    (dram.storeLe i count value).loadLe i count = value := by
  apply BitVec.eq_of_getLsbD_eq
  intro j _
  rw [getLsbD_loadLe _ _ _ _ hcount]
  by_cases hj : j < 8 * count
  · have hlow : j % 8 < 8 := Nat.mod_lt _ (by decide)
    have hin : j / 8 < count := by omega
    have hindex : 8 * (j / 8) + j % 8 = j := Nat.div_add_mod j 8
    have hbyte : (dram.storeLe i count value).byte (i + j / 8) =
        leByte value (j / 8) := by
      simp [storeLe, hin]
    rw [hbyte, getLsbD_leByte _ _ _ hlow, hindex]
    simp [hj]
  · rw [hvalue j (not_lt.mp hj)]
    simp [hj]

theorem loadLe_storeLe_disjoint (dram : Dram) {i count j size : ℕ}
    (value : BitVec 64) (hdisjoint : i + count ≤ j ∨ j + size ≤ i) :
    (dram.storeLe i count value).loadLe j size = dram.loadLe j size := by
  apply loadLe_congr
  intro k hle hlt
  exact storeLe_byte_outside dram value (by omega)

end Dram

namespace Memory

/-- The whole access lies in DRAM. -/
def InDram (mem : Memory) (addr : BitVec 64) (size : ℕ) : Prop :=
  DRAM_BASE ≤ addr ∧ addr.toNat - DRAM_BASE.toNat + size ≤ mem.dram.len ∧
    addr.toNat - DRAM_BASE.toNat + size < 2 ^ 64

instance (mem : Memory) (addr : BitVec 64) (size : ℕ) :
    Decidable (mem.InDram addr size) :=
  inferInstanceAs (Decidable (_ ∧ _))

def offset (addr : BitVec 64) : ℕ :=
  addr.toNat - DRAM_BASE.toNat

theorem index_of_inDram {mem : Memory} {addr : BitVec 64} {size : ℕ}
    (hin : mem.InDram addr size) : mem.index addr size = some (offset addr) := by
  obtain ⟨hbase, hlen, hword⟩ := hin
  rw [index, if_neg (BitVec.not_lt.mpr hbase)]
  dsimp only
  rw [if_neg (not_le.mpr hword), if_neg (not_lt.mpr hlen)]
  rfl

theorem index_eq_some {mem : Memory} {addr : BitVec 64} {size i : ℕ}
    (hindex : mem.index addr size = some i) :
    mem.InDram addr size ∧ i = offset addr := by
  rw [index] at hindex
  dsimp only at hindex
  split at hindex
  · cases hindex
  · next hbase =>
      split at hindex
      · cases hindex
      · next hword =>
          split at hindex
          · cases hindex
          · next hlen =>
              exact ⟨⟨BitVec.not_lt.mp hbase, not_lt.mp hlen,
                not_le.mp hword⟩, (Option.some.inj hindex).symm⟩

theorem index_of_not_inDram {mem : Memory} {addr : BitVec 64} {size : ℕ}
    (hout : ¬ mem.InDram addr size) : mem.index addr size = none := by
  cases hindex : mem.index addr size with
  | none => rfl
  | some i => exact absurd (index_eq_some hindex).1 hout

theorem size_le_of_valid {size : ℕ} (hsize : validSize size = true) :
    size ≤ 8 := by
  simp only [validSize, Bool.or_eq_true, beq_iff_eq] at hsize
  omega

theorem read_inDram {mem : Memory} {addr : BitVec 64} {size : ℕ}
    (hin : mem.InDram addr size) (hsize : validSize size = true)
    (profile : Profile) :
    Memory.read addr size profile mem =
      some (.ok (mem.dram.loadLe (offset addr) size), mem) := by
  have hread : mem.dram.read (offset addr) size profile =
      some (mem.dram.loadLe (offset addr) size) := by
    rw [Dram.read, if_pos (show offset addr + size ≤ mem.dram.len from hin.2.1)]
    rfl
  rw [Memory.read, if_pos hin.1,
    Program.bind_run_ok (Program.read_run _ _ _), index_of_inDram hin]
  dsimp only
  rw [if_pos hsize, Program.bind_run_ok (Program.read_run _ _ _)]
  exact Program.check_run_some hread mem

def stored (mem : Memory) (addr : BitVec 64) (size : ℕ) (value : BitVec 64) :
    Memory :=
  noteTohost { mem with dram := mem.dram.storeLe (offset addr) size value }
    addr value

@[simp] theorem stored_dram (mem : Memory) (addr : BitVec 64) (size : ℕ)
    (value : BitVec 64) :
    (mem.stored addr size value).dram =
      mem.dram.storeLe (offset addr) size value := by
  rw [stored, noteTohost]
  split <;> rfl

theorem write_inDram {mem : Memory} {addr : BitVec 64} {size : ℕ}
    (hin : mem.InDram addr size) (hsize : validSize size = true)
    (value : BitVec 64) (profile : Profile) :
    Memory.write addr size value profile mem =
      some (.ok (), mem.stored addr size value) := by
  have hwrite : mem.dram.write (offset addr) size value profile =
      some (mem.dram.storeLe (offset addr) size value) := by
    rw [Dram.write,
      if_pos (show offset addr + size ≤ mem.dram.len from hin.2.1)]
    rfl
  rw [Memory.write, if_pos hin.1,
    Program.bind_run_ok (Program.read_run _ _ _), index_of_inDram hin]
  dsimp only
  rw [if_pos hsize, Program.bind_run_ok (Program.read_run _ _ _),
    Program.bind_run_ok (Program.check_run_some hwrite mem)]
  rfl

/-- The memory once an address was read to no effect: only an access outside
DRAM is noticed. -/
def noticed (mem : Memory) (addr : BitVec 64) : Memory :=
  if DRAM_BASE ≤ addr then mem else { mem with devicesDirty := true }

/-- The address of a device register. -/
def InDevice (addr : BitVec 64) : Prop :=
  addr < DRAM_BASE ∧
    (CLINT_BASE ≤ addr ∧ addr < CLINT_END ∨
      Plic.PLIC_BASE ≤ addr ∧ addr < Plic.PLIC_BASE + Plic.PLIC_SIZE ∨
      Uart.UART_BASE ≤ addr ∧ addr < Uart.UART_BASE + Uart.UART_SIZE)

theorem read_unmapped {mem : Memory} {addr : BitVec 64} {size : ℕ}
    (hout : ¬ mem.InDram addr size) (hdevice : ¬ InDevice addr)
    (profile : Profile) :
    Memory.read addr size profile mem =
      some (.error .unmapped, mem.noticed addr) := by
  unfold noticed
  by_cases hbase : DRAM_BASE ≤ addr
  · rw [if_pos hbase, Memory.read, if_pos hbase,
      Program.bind_run_ok (Program.read_run _ _ _), index_of_not_inDram hout]
    rfl
  · have hnone := not_and.mp hdevice (BitVec.not_le.mp hbase)
    rw [not_or, not_or] at hnone
    have htouch : touchDevices profile mem =
        some (.ok (), { mem with devicesDirty := true }) := rfl
    rw [if_neg hbase, Memory.read, if_neg hbase, Program.bind_run_ok htouch,
      Program.bind_run_ok (Program.read_run _ _ _), Program.ite_run,
      if_neg hnone.1, Program.ite_run, if_neg hnone.2.1, Program.ite_run,
      if_neg hnone.2.2]
    rfl

/-! ## The course of an access -/

section Course

variable {profile : Profile} {mem mem' : Memory} {addr : BitVec 64} {size : ℕ}

/-- What a read that returns comes to. -/
inductive ReadCourse (profile : Profile) (mem : Memory) (addr : BitVec 64)
    (size : ℕ) : Except Unmapped (BitVec 64) → Memory → Prop where
  | dram : mem.InDram addr size → validSize size = true →
      ReadCourse profile mem addr size
        (.ok (mem.dram.loadLe (offset addr) size)) mem
  | outside : DRAM_BASE ≤ addr →
      ¬ (mem.InDram addr size ∧ validSize size = true) →
      ReadCourse profile mem addr size (.error .unmapped) mem
  | clint {v : BitVec 64} : addr < DRAM_BASE →
      CLINT_BASE ≤ addr ∧ addr < CLINT_END →
      mem.clint.read addr size profile = some v →
      ReadCourse profile mem addr size (.ok v)
        { mem with devicesDirty := true }
  | plic : addr < DRAM_BASE →
      Plic.PLIC_BASE ≤ addr ∧ addr < Plic.PLIC_BASE + Plic.PLIC_SIZE →
      ReadCourse profile mem addr size
        (.ok (mem.plic.read (addr - Plic.PLIC_BASE)).1)
        { mem with
          devicesDirty := true
          plic := (mem.plic.read (addr - Plic.PLIC_BASE)).2 }
  | uart : addr < DRAM_BASE →
      Uart.UART_BASE ≤ addr ∧ addr < Uart.UART_BASE + Uart.UART_SIZE →
      ReadCourse profile mem addr size
        (.ok (mem.uart.read (addr - Uart.UART_BASE)).1)
        { mem with
          devicesDirty := true
          uart := (mem.uart.read (addr - Uart.UART_BASE)).2 }
  | unmapped : addr < DRAM_BASE → ¬ InDevice addr →
      ReadCourse profile mem addr size (.error .unmapped)
        { mem with devicesDirty := true }

theorem read_course {outcome : Except Unmapped (BitVec 64)}
    (hrun : Memory.read addr size profile mem = some (outcome, mem')) :
    ReadCourse profile mem addr size outcome mem' := by
  by_cases hbase : DRAM_BASE ≤ addr
  · by_cases hin : mem.InDram addr size ∧ validSize size = true
    · rw [read_inDram hin.1 hin.2] at hrun
      cases hrun
      exact .dram hin.1 hin.2
    · rw [Memory.read, if_pos hbase,
        Program.bind_run_ok (Program.read_run _ _ _)] at hrun
      cases hindex : mem.index addr size with
      | none =>
          rw [hindex] at hrun
          cases hrun
          exact .outside hbase hin
      | some i =>
          have hsize : ¬ validSize size = true := fun hsize =>
            hin ⟨(index_eq_some hindex).1, hsize⟩
          simp only [hindex, if_neg hsize] at hrun
          cases hrun
          exact .outside hbase hin
  · have hlow : addr < DRAM_BASE := BitVec.not_le.mp hbase
    have htouch : touchDevices profile mem =
        some (.ok (), { mem with devicesDirty := true }) := rfl
    rw [Memory.read, if_neg hbase, Program.bind_run_ok htouch,
      Program.bind_run_ok (Program.read_run _ _ _), Program.ite_run] at hrun
    split at hrun
    · next hclint =>
        obtain ⟨v, hread, rfl, rfl⟩ := Program.check_cases hrun
        exact .clint hlow hclint hread
    rw [Program.ite_run] at hrun
    split at hrun
    · next hplic =>
        cases hrun
        exact .plic hlow hplic
    rw [Program.ite_run] at hrun
    split at hrun
    · next huart =>
        cases hrun
        exact .uart hlow huart
    next hclint hplic huart =>
      cases hrun
      exact .unmapped hlow fun hdevice =>
        absurd hdevice.2 (not_or.mpr ⟨hclint, not_or.mpr ⟨hplic, huart⟩⟩)

/-- What a write that returns comes to. -/
inductive WriteCourse (profile : Profile) (mem : Memory) (addr : BitVec 64)
    (size : ℕ) (value : BitVec 64) : Except Unmapped Unit → Memory → Prop where
  | dram : mem.InDram addr size → validSize size = true →
      WriteCourse profile mem addr size value (.ok ())
        (mem.stored addr size value)
  | outside : DRAM_BASE ≤ addr →
      ¬ (mem.InDram addr size ∧ validSize size = true) →
      WriteCourse profile mem addr size value (.error .unmapped) mem
  | clint {clint' : Clint} : addr < DRAM_BASE →
      CLINT_BASE ≤ addr ∧ addr < CLINT_END →
      mem.clint.write addr size value profile = some clint' →
      WriteCourse profile mem addr size value (.ok ())
        { mem with devicesDirty := true, clint := clint' }
  | plic : addr < DRAM_BASE →
      Plic.PLIC_BASE ≤ addr ∧ addr < Plic.PLIC_BASE + Plic.PLIC_SIZE →
      WriteCourse profile mem addr size value (.ok ())
        { mem with
          devicesDirty := true
          plic := mem.plic.write (addr - Plic.PLIC_BASE) value }
  | uart : addr < DRAM_BASE →
      Uart.UART_BASE ≤ addr ∧ addr < Uart.UART_BASE + Uart.UART_SIZE →
      WriteCourse profile mem addr size value (.ok ())
        { mem with
          devicesDirty := true
          uart := mem.uart.write (addr - Uart.UART_BASE) value }
  | unmapped : addr < DRAM_BASE → ¬ InDevice addr →
      WriteCourse profile mem addr size value (.error .unmapped)
        { mem with devicesDirty := true }

theorem write_course {value : BitVec 64} {outcome : Except Unmapped Unit}
    (hrun : Memory.write addr size value profile mem =
      some (outcome, mem')) :
    WriteCourse profile mem addr size value outcome mem' := by
  by_cases hbase : DRAM_BASE ≤ addr
  · by_cases hin : mem.InDram addr size ∧ validSize size = true
    · rw [write_inDram hin.1 hin.2] at hrun
      cases hrun
      exact .dram hin.1 hin.2
    · rw [Memory.write, if_pos hbase,
        Program.bind_run_ok (Program.read_run _ _ _)] at hrun
      cases hindex : mem.index addr size with
      | none =>
          rw [hindex] at hrun
          cases hrun
          exact .outside hbase hin
      | some i =>
          have hsize : ¬ validSize size = true := fun hsize =>
            hin ⟨(index_eq_some hindex).1, hsize⟩
          simp only [hindex, if_neg hsize] at hrun
          cases hrun
          exact .outside hbase hin
  · have hlow : addr < DRAM_BASE := BitVec.not_le.mp hbase
    have htouch : touchDevices profile mem =
        some (.ok (), { mem with devicesDirty := true }) := rfl
    rw [Memory.write, if_neg hbase, Program.bind_run_ok htouch,
      Program.bind_run_ok (Program.read_run _ _ _), Program.ite_run] at hrun
    split at hrun
    · next hclint =>
        rcases Program.bind_cases hrun with
          ⟨e, hcheck, -⟩ | ⟨clint', touched, hcheck, hupdate⟩
        · obtain ⟨_, -, hdone, -⟩ := Program.check_cases hcheck
          cases hdone
        · obtain ⟨_, hwrite, hdone, rfl⟩ := Program.check_cases hcheck
          cases hdone
          cases hupdate
          exact .clint hlow hclint hwrite
    rw [Program.ite_run] at hrun
    split at hrun
    · next hplic =>
        cases hrun
        exact .plic hlow hplic
    rw [Program.ite_run] at hrun
    split at hrun
    · next huart =>
        cases hrun
        exact .uart hlow huart
    next hclint hplic huart =>
      cases hrun
      exact .unmapped hlow fun hdevice =>
        absurd hdevice.2 (not_or.mpr ⟨hclint, not_or.mpr ⟨hplic, huart⟩⟩)

end Course

end Memory

end Nanoemu
