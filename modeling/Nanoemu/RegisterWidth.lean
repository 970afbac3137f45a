import Nanoemu.RetiredCounter

/-!
# Registers of an RV32 hart

An instruction writes registers through the width of the hart.  The firmware
writes the argument registers as they come, and an error it reports is a
negative number of 64 bits.
-/

namespace Nanoemu

open CheckedProgram BitFields

namespace Cpu

variable {profile : Profile} {c c' : Cpu} {outcome : Except Exception Unit}

def Narrow (regs : Fin 32 → BitVec 64) : Prop :=
  ∀ r, (regs r).toNat < 2 ^ 32

theorem Narrow.update {regs : Fin 32 → BitVec 64} (h : Narrow regs)
    {v : BitVec 64} (hv : v.toNat < 2 ^ 32) (r : Fin 32) :
    Narrow (Function.update regs r v) := by
  intro other
  by_cases hother : other = r
  · rw [hother, Function.update_self]
    exact hv
  · rw [Function.update_of_ne hother]
    exact h other

theorem not_narrow_of_arg {regs : Fin 32 → BitVec 64} {r : Fin 32}
    {v : BitVec 64} (hv : 2 ^ 32 ≤ v.toNat) :
    ¬ Narrow (Function.update regs r v) := by
  intro h
  have hone := h r
  rw [Function.update_self] at hone
  omega

theorem Effect.narrow {start : Cpu} {inst : BitVec 32} {instPc : BitVec 64}
    (heffect : Effect start inst instPc c c') (hxlen : c.xlen = .rv32)
    (h : Narrow c.regs) : Narrow c'.regs := by
  cases heffect with
  | register r v =>
      rw [setReg]
      split
      · exact h
      · refine h.update ?_ r
        rw [xbits, hxlen]
        exact (within_low_iff (k := 32) (by decide)).mp (trunc_within v)
  | jump _ => exact h
  | reserve _ => exact h
  | release _ => exact h
  | float r v _ => exact h
  | flags raised _ =>
      rw [setFflags]
      split <;> exact h

theorem Command.regs {start : Cpu} {inst : BitVec 32}
    (h : Command start inst c c') : c'.regs = c.regs := by
  cases h with
  | none _ => rfl
  | csr value _ _ => rw [writeCsr_frame]
  | sret _ _ => rfl
  | mret _ _ => rfl
  | fence _ _ => rfl

theorem Executed.narrow {start : Cpu} {inst : BitVec 32} {instPc : BitVec 64}
    (hexecuted : Executed start inst instPc c c') (hxlen : c.xlen = .rv32)
    (h : Narrow c.regs) : Narrow c'.regs := by
  have htouch : ∀ {x : Cpu}, Touched c x → x.xlen = .rv32 ∧ Narrow x.regs := by
    intro x htouched
    refine ⟨htouched.sameWidth.xlen.trans hxlen, ?_⟩
    rw [(congrArg Cpu.regs htouched.frame :)]
    exact h
  have hcommand : ∀ {x y : Cpu}, Command start inst x y →
      x.xlen = .rv32 ∧ Narrow x.regs → y.xlen = .rv32 ∧ Narrow y.regs := by
    intro x y hcommand hnarrow
    rw [hcommand.regs]
    exact ⟨hcommand.sameWidth.xlen.trans hnarrow.1, hnarrow.2⟩
  have heffect : ∀ {x y : Cpu}, Effect start inst instPc x y →
      x.xlen = .rv32 ∧ Narrow x.regs → y.xlen = .rv32 ∧ Narrow y.regs :=
    fun heffect hnarrow => ⟨heffect.sameWidth.xlen.trans hnarrow.1,
      heffect.narrow hnarrow.1 hnarrow.2⟩
  exact (hexecuted.induction htouch hcommand heffect).2

/-! ## Calls -/

/-- A legacy call with an answer that is not negative: the function exists,
and the console has a byte if one is asked for. -/
def LegacySupported (eid : BitVec 64) (uart : Uart) : Prop :=
  eid ≤ Sbi.LEGACY_SHUTDOWN ∧
    (eid = Sbi.LEGACY_CONSOLE_GETCHAR → uart.rx ≠ [])

/-- A function that its extension has. -/
def ExtensionSupported (eid fid : BitVec 64) : Prop :=
  eid = Sbi.EXT_BASE ∧ fid.toNat ≤ 6 ∨
    eid = Sbi.EXT_TIME ∧ fid = 0 ∨
    eid = Sbi.EXT_IPI ∧ fid = 0 ∨
    eid = Sbi.EXT_RFENCE ∨
    eid = Sbi.EXT_HSM ∧ fid = 2 ∨
    eid = Sbi.EXT_SRST ∧ fid = 0 ∨
    eid = Sbi.EXT_DBCN ∧ (fid = 0 ∨ fid = 2)

/-- The call a hart makes, by its a7 and a6, has an answer that is not
negative. -/
def Supported (c : Cpu) : Prop :=
  if c.regs 17 < 0x10 then LegacySupported (c.regs 17) c.mem.uart
  else ExtensionSupported (c.regs 17) (c.regs 16)

def regsFrame : Frame Cpu where
  rel c c' := c'.regs = c.regs
  refl _ := rfl
  trans hfirst hsecond := Eq.trans hsecond hfirst

theorem tryRead_regs (addr : BitVec 64) (size : ℕ) :
    (tryRead addr size).Moves regsFrame := by
  apply Program.Moves.attempt
  apply Program.Keeps.zoom (Memory.read_noted addr size)
  exact fun _ _ _ => rfl

theorem putchar_regs (byte : BitVec 8) :
    (onUart fun uart => uart.putchar byte).Moves regsFrame :=
  Program.Moves.update fun _ => rfl

theorem reply_ensures {body : Hart Unit} (hbody : body.Moves regsFrame)
    (v : BitVec 64) (profile : Profile) (c : Cpu) :
    Program.Ensures (do
      body
      setArg a0 v
      pure true : Hart Bool) profile c
      (fun _ c' => c'.regs = Function.update c.regs a0 v)
      (fun _ _ => False) := by
  apply Program.Ensures.bind
  apply (hbody profile c).mono
  · intro _ c₁ hregs
    apply Program.Ensures.bind
    apply Program.Ensures.update
    apply Program.Ensures.pure
    exact congrArg (Function.update · a0 v) hregs
  · exact fun _ _ h => h

theorem legacySendIpi_regs (pointer : BitVec 64) (profile : Profile)
    (c : Cpu) :
    (legacySendIpi pointer).Ensures profile c
      (fun _ c' => c'.regs = Function.update c.regs a0 0)
      (fun _ _ => False) := by
  have hfinish : ∀ (selected : Bool) (x : Cpu), Program.Ensures (do
      if selected then setMip IntBit.SSIP else pure ()
      setArg a0 0 : Hart Unit) profile x
      (fun _ c' => c'.regs = Function.update x.regs a0 0)
      (fun _ _ => False) := by
    intro selected x
    apply Program.Ensures.ite
    · intro _
      apply Program.Ensures.bind
      apply Program.Ensures.update
      exact Program.Ensures.update rfl
    · exact fun _ => Program.Ensures.update rfl
  apply Program.Ensures.ite
  · exact fun _ => hfinish true c
  · intro _
    apply Program.Ensures.bind
    apply (tryRead_regs pointer 8 profile c).mono
    · intro mask c₁ hregs
      apply (hfinish _ c₁).mono
      · exact fun _ _ h => h.trans (congrArg (Function.update · a0 0) hregs)
      · exact fun _ _ h => h
    · exact fun _ _ h => h

theorem consoleGetchar_regs (profile : Profile) (c : Cpu) :
    consoleGetchar.Ensures profile c
      (fun _ c' => c'.regs = Function.update c.regs a0
        (match c.mem.uart.rx.head? with
          | some b => b.setWidth 64
          | none => -1))
      (fun _ _ => False) := by
  apply Program.Ensures.bind
  apply Program.Ensures.read
  apply Program.Ensures.bind
  apply Program.Ensures.update
  exact Program.Ensures.update rfl

theorem handleLegacy_narrow (h : Narrow c.regs) (eid arg : BitVec 64)
    (profile : Profile) :
    (handleLegacy eid arg).Ensures profile c
      (fun _ c' => Narrow c'.regs ↔ LegacySupported eid c.mem.uart)
      (fun _ _ => False) := by
  have hzero : ∀ {regs : Fin 32 → BitVec 64} (heid : eid ≤ Sbi.LEGACY_SHUTDOWN)
      (hother : eid ≠ Sbi.LEGACY_CONSOLE_GETCHAR),
      regs = Function.update c.regs a0 0 →
        (Narrow regs ↔ LegacySupported eid c.mem.uart) := by
    rintro regs heid hother rfl
    exact iff_of_true (h.update (by decide) a0)
      ⟨heid, fun hgetchar => absurd hgetchar hother⟩
  have hreply : ∀ {body : Hart Unit}, body.Moves regsFrame →
      eid ≤ Sbi.LEGACY_SHUTDOWN → eid ≠ Sbi.LEGACY_CONSOLE_GETCHAR →
      Program.Ensures (do
        body
        setArg a0 0
        pure true : Hart Bool) profile c
        (fun _ c' => Narrow c'.regs ↔ LegacySupported eid c.mem.uart)
        (fun _ _ => False) := by
    intro body hbody heid hother
    exact (reply_ensures hbody 0 profile c).mono
      (fun _ _ hregs => hzero heid hother hregs) fun _ _ hfalse => hfalse
  apply Program.Ensures.ite
  · rintro rfl
    exact hreply (Program.Moves.update fun _ => rfl) (by decide) (by decide)
  intro htimer
  apply Program.Ensures.ite
  · rintro rfl
    exact hreply (putchar_regs _) (by decide) (by decide)
  intro hputchar
  apply Program.Ensures.ite
  · rintro rfl
    apply Program.Ensures.bind
    apply (consoleGetchar_regs profile c).mono
    · intro _ c₁ hregs
      apply Program.Ensures.pure
      rw [hregs]
      cases hrx : c.mem.uart.rx with
      | nil =>
          refine iff_of_false (not_narrow_of_arg (by decide)) ?_
          exact fun hsupported => hsupported.2 rfl hrx
      | cons b rest =>
          refine iff_of_true (h.update ?_ a0) ⟨by decide, fun _ => ?_⟩
          · change (b.setWidth 64).toNat < 2 ^ 32
            rw [BitVec.toNat_setWidth_of_le (by decide)]
            have hbyte := b.isLt
            omega
          · rw [hrx]
            exact List.cons_ne_nil b rest
    · exact fun _ _ hfalse => hfalse
  intro hgetchar
  apply Program.Ensures.ite
  · rintro rfl
    exact Program.Ensures.pure
      (iff_of_true h ⟨by decide, fun hsame => absurd hsame (by decide)⟩)
  intro hshutdown
  apply Program.Ensures.ite
  · rintro rfl
    apply Program.Ensures.bind
    apply (legacySendIpi_regs arg profile c).mono
    · exact fun _ _ hregs =>
        Program.Ensures.pure (hzero (by decide) (by decide) hregs)
    · exact fun _ _ hfalse => hfalse
  intro hsend
  apply Program.Ensures.ite
  · rintro rfl
    exact hreply (Program.Moves.update fun _ => rfl) (by decide) (by decide)
  intro hclear
  apply Program.Ensures.ite
  · rintro (rfl | rfl | rfl) <;>
      exact hreply (Program.Moves.update fun _ => rfl) (by decide) (by decide)
  intro hfences
  apply Program.Ensures.bind
  apply Program.Ensures.update
  apply Program.Ensures.pure
  refine iff_of_false (not_narrow_of_arg (by decide)) fun hsupported => ?_
  -- The nine functions are the numbers up to eight.
  have hle := hsupported.1
  simp only [not_or, Sbi.LEGACY_SET_TIMER, Sbi.LEGACY_CONSOLE_PUTCHAR,
    Sbi.LEGACY_CONSOLE_GETCHAR, Sbi.LEGACY_SHUTDOWN, Sbi.LEGACY_SEND_IPI,
    Sbi.LEGACY_CLEAR_IPI, Sbi.LEGACY_REMOTE_FENCE_I,
    Sbi.LEGACY_REMOTE_SFENCE_VMA, Sbi.LEGACY_REMOTE_SFENCE_VMA_ASID]
    at hle htimer hputchar hgetchar hshutdown hsend hclear hfences
  bv_omega

theorem consoleWrite_regs (addr : BitVec 64) (remaining : ℕ) (i : BitVec 64)
    (hfits : i.toNat + remaining < 2 ^ 32) (profile : Profile) (c : Cpu) :
    (consoleWrite addr remaining i).Ensures profile c
      (fun written c' => c'.regs = c.regs ∧ written.toNat < 2 ^ 32)
      (fun _ _ => False) := by
  induction remaining generalizing i c with
  | zero => exact Program.Ensures.pure ⟨rfl, by omega⟩
  | succ remaining ih =>
      apply Program.Ensures.bind
      apply Program.Ensures.check
      intro source _
      apply Program.Ensures.bind
      apply (tryRead_regs source 1 profile c).mono
      · intro byte c₁ hregs
        have hregs : c₁.regs = c.regs := hregs
        cases byte with
        | error _ => exact Program.Ensures.pure ⟨hregs, by omega⟩
        | ok b =>
            apply Program.Ensures.bind
            apply Program.Ensures.update
            apply Program.Ensures.bind
            apply Program.Ensures.check
            intro next hnext
            have hnext : next.toNat = i.toNat + 1 := by
              rw [Checked.add_eq_some hnext, BitVec.toNat_add]
              change (i.toNat + 1) % 2 ^ 64 = i.toNat + 1
              exact Nat.mod_eq_of_lt (by omega)
            apply (ih next (by omega) _).mono
            · exact fun _ _ h => ⟨h.1.trans hregs, h.2⟩
            · exact fun _ _ h => h
      · exact fun _ _ h => h

/-- A supported function gives a small answer, and any other the error for
what is not supported. -/
def Replies (supported : Prop) (reply : Option Sbi.Ret) : Prop :=
  (supported ∧ ∀ ret, reply = some ret → ret.error.toNat < 2 ^ 32 ∧
    ret.value.toNat < 2 ^ 32) ∨
    ¬ supported ∧ reply = some Sbi.Ret.notSupported

theorem Replies.supported {supported : Prop} {ret : Sbi.Ret}
    (hsupported : supported) (herror : ret.error.toNat < 2 ^ 32)
    (hvalue : ret.value.toNat < 2 ^ 32) : Replies supported (some ret) := by
  refine Or.inl ⟨hsupported, ?_⟩
  rintro _ ⟨⟩
  exact ⟨herror, hvalue⟩

theorem Replies.ok {supported : Prop} {value : BitVec 64}
    (hsupported : supported) (hvalue : value.toNat < 2 ^ 32) :
    Replies supported (some (Sbi.Ret.ok value)) :=
  .supported hsupported (by decide : (0 : BitVec 64).toNat < 2 ^ 32) hvalue

theorem handleBase_replies (fid arg : BitVec 64) :
    Replies (fid.toNat ≤ 6) (some (handleBase fid arg)) := by
  have hprobe : (boolWord (Sbi.probed.contains arg)).toNat < 2 ^ 32 := by
    rw [boolWord]
    split <;> decide
  rw [handleBase]
  split
  · exact .ok (by omega) (by decide)
  · exact .ok (by omega) (by decide)
  · exact .ok (by omega) (by decide)
  · exact .ok (by omega) hprobe
  · exact .ok (by omega) (by decide)
  · exact .ok (by omega) (by decide)
  · exact .ok (by omega) (by decide)
  · next h0 h1 h2 h3 h4 h5 h6 =>
      simp only [imp_false] at h0 h1 h2 h3 h4 h5 h6
      exact Or.inr ⟨by omega, rfl⟩

theorem handleExtension_replies (eid fid arg0 arg1 : BitVec 64)
    (harg : arg0.toNat < 2 ^ 32) (profile : Profile) (c : Cpu) :
    (handleExtension eid fid arg0 arg1).Ensures profile c
      (fun reply c' => c'.regs = c.regs ∧
        Replies (ExtensionSupported eid fid) reply)
      (fun _ _ => False) := by
  have hsuccess : ∀ {c₁ : Cpu}, ExtensionSupported eid fid →
      c₁.regs = c.regs → (pure (some Sbi.Ret.success) :
        Hart (Option Sbi.Ret)).Ensures profile c₁
        (fun reply c' => c'.regs = c.regs ∧
          Replies (ExtensionSupported eid fid) reply)
        (fun _ _ => False) := by
    intro c₁ hsupported hregs
    exact Program.Ensures.pure
      ⟨hregs, .supported hsupported (by decide) (by decide)⟩
  apply Program.Ensures.ite
  · rintro rfl
    apply Program.Ensures.pure
    refine ⟨rfl, ?_⟩
    have hbase : ExtensionSupported Sbi.EXT_BASE fid ↔ fid.toNat ≤ 6 := by
      constructor
      · rintro (h | h | h | h | h | h | h)
        · exact h.2
        all_goals first | exact absurd h (by decide) | exact absurd h.1 (by decide)
      · exact fun h => Or.inl ⟨rfl, h⟩
    rw [hbase]
    exact handleBase_replies fid arg0
  intro hbase
  apply Program.Ensures.ite
  · intro htime
    apply Program.Ensures.bind
    apply Program.Ensures.update
    exact hsuccess (Or.inr (Or.inl htime)) rfl
  intro htime
  apply Program.Ensures.ite
  · intro hipi
    have hsupported : ExtensionSupported eid fid :=
      Or.inr (Or.inr (Or.inl hipi))
    apply Program.Ensures.bind
    apply Program.Ensures.check
    intro selected _
    apply Program.Ensures.ite
    · intro _
      apply Program.Ensures.bind
      apply Program.Ensures.update
      exact hsuccess hsupported rfl
    · exact fun _ => hsuccess hsupported rfl
  intro hipi
  apply Program.Ensures.ite
  · intro hrfence
    apply Program.Ensures.bind
    apply Program.Ensures.update
    exact hsuccess (Or.inr (Or.inr (Or.inr (Or.inl hrfence)))) rfl
  intro hrfence
  apply Program.Ensures.ite
  · rintro rfl
    apply Program.Ensures.pure
    refine ⟨rfl, ?_⟩
    have hhsm : ExtensionSupported Sbi.EXT_HSM fid ↔ fid = 2 := by
      constructor
      · rintro (h | h | h | h | h | h | h)
        case inr.inr.inr.inr.inl => exact h.2
        all_goals first | exact absurd h (by decide) | exact absurd h.1 (by decide)
      · exact fun h => Or.inr (Or.inr (Or.inr (Or.inr (Or.inl ⟨rfl, h⟩))))
    rw [hhsm]
    by_cases hfid : fid = 2
    · rw [if_pos hfid]
      exact .supported hfid (by decide) (by decide)
    · rw [if_neg hfid]
      exact Or.inr ⟨hfid, rfl⟩
  intro hhsm
  apply Program.Ensures.ite
  · intro hreset
    apply Program.Ensures.pure
    refine ⟨rfl, Or.inl ⟨?_, fun _ h => by cases h⟩⟩
    exact Or.inr (Or.inr (Or.inr (Or.inr (Or.inr (Or.inl hreset)))))
  intro hreset
  apply Program.Ensures.ite
  · rintro ⟨heid, hfid⟩
    have hsupported : ExtensionSupported eid fid :=
      Or.inr (Or.inr (Or.inr (Or.inr (Or.inr (Or.inr ⟨heid, Or.inl hfid⟩)))))
    apply Program.Ensures.bind
    apply (consoleWrite_regs arg1 arg0.toNat 0 (by simpa using harg)
      profile c).mono
    · intro written c₁ hwritten
      exact Program.Ensures.pure
        ⟨hwritten.1, .ok hsupported hwritten.2⟩
    · exact fun _ _ h => h
  intro hwrite
  apply Program.Ensures.ite
  · rintro ⟨heid, hfid⟩
    apply Program.Ensures.bind
    apply Program.Ensures.update
    exact hsuccess (Or.inr (Or.inr (Or.inr (Or.inr (Or.inr
      (Or.inr ⟨heid, Or.inr hfid⟩)))))) rfl
  intro hbyte
  apply Program.Ensures.pure
  refine ⟨rfl, Or.inr ⟨?_, rfl⟩⟩
  rintro (h | h | h | h | h | h | ⟨h, hfid | hfid⟩)
  · exact hbase h.1
  · exact htime h
  · exact hipi h
  · exact hrfence h
  · exact hhsm h.1
  · exact hreset h
  · exact hwrite ⟨h, hfid⟩
  · exact hbyte ⟨h, hfid⟩

/-- An answer in a0 and a1 keeps the registers narrow exactly if the function
is supported. -/
theorem Replies.narrow_iff {regs : Fin 32 → BitVec 64} (h : Narrow regs)
    {supported : Prop} {ret : Sbi.Ret}
    (hreplies : Replies supported (some ret)) :
    Narrow (Function.update (Function.update regs a0 ret.error) a1 ret.value) ↔
      supported := by
  rcases hreplies with ⟨hsupported, hsmall⟩ | ⟨hother, hret⟩
  · obtain ⟨herror, hvalue⟩ := hsmall ret rfl
    exact iff_of_true ((h.update herror a0).update hvalue a1) hsupported
  · cases hret
    refine iff_of_false (fun hnarrow => ?_) hother
    have hone := hnarrow a0
    rw [Function.update_of_ne (by decide), Function.update_self] at hone
    exact absurd hone (by decide)

theorem answerCall_narrow_iff (h : Narrow c.regs)
    (hanswer : answerCall profile c = some (outcome, c')) :
    Narrow c'.regs ↔ Supported c := by
  have hensures : answerCall.Ensures profile c
      (fun _ c' => Narrow c'.regs ↔ Supported c) (fun _ _ => False) := by
    have hlast : ∀ (running : Bool) (x : Cpu),
        (Narrow x.regs ↔ Supported c) → Program.Ensures (do
          if running then pure ()
          else Program.update fun c => { c with shutdown := true } : Hart Unit)
          profile x (fun _ c' => Narrow c'.regs ↔ Supported c)
          (fun _ _ => False) := by
      intro running x hx
      apply Program.Ensures.ite
      · exact fun _ => Program.Ensures.pure hx
      · exact fun _ => Program.Ensures.update hx
    apply Program.Ensures.bind
    apply Program.Ensures.bind
    apply Program.Ensures.read
    apply Program.Ensures.ite
    · intro hlegacy
      have hlegacy : c.regs 17 < 0x10 := hlegacy
      have hsupported : Supported c ↔
          LegacySupported (c.regs 17) c.mem.uart := by
        rw [Supported, if_pos hlegacy]
      apply (handleLegacy_narrow h _ _ profile).mono
      · exact fun running x hx => hlast running x (hx.trans hsupported.symm)
      · exact fun _ _ hfalse => hfalse
    · intro hextension
      have hextension : ¬ c.regs 17 < 0x10 := hextension
      have hsupported : Supported c ↔
          ExtensionSupported (c.regs 17) (c.regs 16) := by
        rw [Supported, if_neg hextension]
      apply Program.Ensures.bind
      apply (handleExtension_replies _ _ _ _ (h a0) profile c).mono
      · rintro reply c₁ ⟨hregs, hreplies⟩
        have hregs : c₁.regs = c.regs := hregs
        cases reply with
        | none =>
            apply Program.Ensures.pure
            apply hlast
            rcases hreplies with ⟨hyes, -⟩ | ⟨-, hnone⟩
            · rw [hregs]
              exact iff_of_true h (hsupported.mpr hyes)
            · cases hnone
        | some ret =>
            apply Program.Ensures.bind
            apply Program.Ensures.update
            apply Program.Ensures.bind
            apply Program.Ensures.update
            apply Program.Ensures.pure
            apply hlast
            dsimp only
            rw [hregs]
            exact (hreplies.narrow_iff h).trans hsupported.symm
      · exact fun _ _ hfalse => hfalse
  cases outcome with
  | ok value => exact hensures.ok hanswer
  | error e => exact (hensures.error hanswer).elim

/-! ## Steps and runs -/

/-- A call that the step from `c` makes is supported. -/
def CallsSupported (profile : Profile) (c : Cpu) : Prop :=
  ∀ e c₁, c.ticked.pendingInterrupt = none →
    fetchExecute c.ticked.pc profile c.fetching = some (.error e, c₁) →
    c₁.callsFirmware e = true → Supported c₁

theorem takeTrap_regs {cause : ℕ} {tval epc : BitVec 64} {isInterrupt : Bool}
    (htrap : takeTrap cause tval epc isInterrupt profile c =
      some (.ok (), c')) : c'.regs = c.regs := by
  obtain ⟨entered, word, pc, -, -, rfl⟩ :=
    (takeTrap_enters cause tval epc isInterrupt profile c).ok htrap
  rfl

theorem step_narrow (hxlen : c.xlen = .rv32) (h : Narrow c.regs)
    (hcalls : CallsSupported profile c)
    (hstep : step profile c = some (outcome, c')) : Narrow c'.regs := by
  have hreached : ∀ {x : Cpu}, Reached c x → Narrow x.regs := by
    intro x hx
    rw [hx.regs]
    exact h
  cases step_course hstep with
  | interrupt _ htrap =>
      rw [takeTrap_regs htrap]
      exact hreached (Reached.refl c)
  | @retired inst len c₁ c₂ _ hfetch hexecute =>
      obtain ⟨htouched, -, hexecuted⟩ := retired_executed hfetch hexecute
      have hx := htouched.reached
      have hstart : Narrow c₁.regs := hreached hx
      have hnarrow := hexecuted.narrow (hx.sameWidth.xlen.trans hxlen) hstart
      rw [retire]
      split <;> exact hnarrow
  | @answered e c₁ _ hpending hfail hfirmware hanswer =>
      exact (answerCall_narrow_iff (hreached (fetchExecute_reached hfail))
        hanswer).mpr (hcalls e c₁ hpending hfail hfirmware)
  | exception _ hfail _ htrap =>
      rw [takeTrap_regs htrap]
      exact hreached (fetchExecute_reached hfail)

/-- The registers of a started hart fit, if its memory ends below 4 GiB and it
was handed small arguments. -/
theorem Started.narrow (hstart : Started profile c)
    (hsize : DRAM_BASE.toNat + c.mem.dram.len < 2 ^ 32)
    (hargs : (c.regs a0).toNat < 2 ^ 32 ∧ (c.regs a1).toNat < 2 ^ 32) :
    Narrow c.regs := by
  intro r
  rcases hstart with hloaded | ⟨entry, hartid, dtb, hloaded⟩
  · exact (hloaded.fresh.regs r).trans_lt hsize
  · by_cases h1 : r = a1
    · rw [h1]
      exact hargs.2
    by_cases h0 : r = a0
    · rw [h0]
      exact hargs.1
    · rw [bootSupervisor]
      dsimp only
      rw [Function.update_of_ne h1, Function.update_of_ne h0]
      exact (hloaded.fresh.regs r).trans_lt hsize

/-- In every run of an RV32 hart whose calls are all supported, every register
holds a 32-bit value. -/
theorem registers_narrow {c₀ : Cpu} (hstart : Started profile c₀)
    (hxlen : c₀.xlen = .rv32)
    (hsize : DRAM_BASE.toNat + c₀.mem.dram.len < 2 ^ 32)
    (hargs : (c₀.regs a0).toNat < 2 ^ 32 ∧ (c₀.regs a1).toNat < 2 ^ 32)
    {past : List Cpu} (hrun : History profile c₀ past c)
    (hcalls : ∀ x ∈ past, CallsSupported profile x) (r : Fin 32) :
    (c.regs r).toNat < 2 ^ 32 := by
  have hstep : ∀ {x x' : Cpu} {outcome : Except Exception Unit},
      x.xlen = .rv32 ∧ Narrow x.regs → CallsSupported profile x →
      step profile x = some (outcome, x') →
      x'.xlen = .rv32 ∧ Narrow x'.regs := by
    intro x x' outcome hnarrow hsupported hstep
    exact ⟨(step_outline hstep).sameWidth.xlen.trans hnarrow.1,
      step_narrow hnarrow.1 hnarrow.2 hsupported hstep⟩
  exact (hrun.invariant ⟨hxlen, hstart.narrow hsize hargs⟩ hstep
    (fun _ hnarrow => hnarrow) hcalls).1.2 r

/-- An RV32 kernel that asks the console for a byte when there is none:
`addi a7, x0, 2`, `ecall`. -/
def waitingHart : Cpu :=
  (programmedHart .rv32 [0x00200893, 0x00000073]).bootSupervisor DRAM_BASE 0 0

theorem waitingHart_started (profile : Profile) : Started profile waitingHart :=
  Or.inr (.boot DRAM_BASE 0 0 (programmedHart_loaded profile .rv32 (by decide)))

theorem waitingHart_first :
    step .debug waitingHart = some (.ok (), stepped .debug waitingHart) :=
  step_eq_stepped (by decide +kernel)

/-- It asks when a byte has been typed. -/
def suppliedHart : Cpu :=
  (stepped .debug waitingHart).pushInput [0x41]

theorem registers_narrow_supplied :
    ((stepped .debug suppliedHart).regs a0).toNat < 2 ^ 32 := by
  have hasked : step .debug suppliedHart =
      some (.ok (), stepped .debug suppliedHart) :=
    step_eq_stepped (by decide +kernel)
  refine registers_narrow (waitingHart_started .debug) rfl (by decide)
    ⟨by decide, by decide⟩
    (((History.start.step waitingHart_first).input [0x41]).step hasked) ?_ a0
  intro x hx e c₁ _ hfail _
  simp only [List.mem_cons, List.not_mem_nil, or_false] at hx
  rcases hx with rfl | rfl
  · have hcall : (fetchExecute suppliedHart.ticked.pc .debug
        suppliedHart.fetching).map (fun result =>
          (result.2.regs 17, result.2.mem.uart.rx)) =
        some (Sbi.LEGACY_CONSOLE_GETCHAR, [0x41]) := by
      decide +kernel
    have hfail' : fetchExecute suppliedHart.ticked.pc .debug
        suppliedHart.fetching = some (.error e, c₁) := hfail
    rw [hfail', Option.map_some, Option.some.injEq, Prod.mk.injEq] at hcall
    unfold Supported LegacySupported
    rw [hcall.1, hcall.2, if_pos (by decide)]
    exact ⟨by decide, fun _ => by decide⟩
  · have hok : (fetchExecute waitingHart.ticked.pc .debug
        waitingHart.fetching).map Prod.fst = some (.ok ()) := by
      decide +kernel
    rw [hfail] at hok
    cases hok

/-- The answer is minus one, in 64 bits. -/
theorem registers_wide :
    Reachable .debug (Started .debug)
        (stepped .debug (stepped .debug waitingHart)) ∧
      waitingHart.xlen = .rv32 ∧
      DRAM_BASE.toNat + waitingHart.mem.dram.len < 2 ^ 32 ∧
      (stepped .debug (stepped .debug waitingHart)).regs a0 = -1 := by
  have hsecond : step .debug (stepped .debug waitingHart) =
      some (.ok (), stepped .debug (stepped .debug waitingHart)) :=
    step_eq_stepped (by decide +kernel)
  exact ⟨⟨_, waitingHart_started .debug,
    ((History.start.step waitingHart_first).step hsecond).run⟩, rfl,
    by decide, by decide +kernel⟩

end Cpu

end Nanoemu
