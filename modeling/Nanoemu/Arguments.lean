import Nanoemu.CommandLine

/-!
# The arguments of the program

`parse` reads the arguments from the left into the options.  A later one
overrides an earlier one, and the first that makes no sense ends the program
with its usage.
-/

namespace Nanoemu

open CheckedProgram

namespace Main

def DEFAULT_MAX_STEPS : BitVec 64 := 100000000

/-- A decimal number of 64 bits as the host parses it, with or without a plus
sign. -/
def parseNumber (text : String) : Option (BitVec 64) :=
  let digits :=
    if text.toList.head? = some '+' then text.toList.tail else text.toList
  if digits ≠ [] ∧ digits.all Char.isDigit = true ∧
      Nat.ofDigitChars 10 digits 0 < 2 ^ 64 then
    some (BitVec.ofNat 64 (Nat.ofDigitChars 10 digits 0))
  else none

/-- The options that an argument leaves, and the arguments after it. -/
abbrev Read := Except String (Options × List String)

/-- Takes the next argument as the value of `arg`. -/
def value (arg : String) (args : List String)
    (set : String → Except String Options) : Read :=
  match args with
  | [] => .error (arg ++ " needs a value")
  | v :: rest => (set v).map fun o => (o, rest)

def number (v wants : String) (set : BitVec 64 → Options) :
    Except String Options :=
  match parseNumber v with
  | none => .error wants
  | some n => .ok (set n)

def parseArg (arg : String) (args : List String) (o : Options) : Read :=
  if arg = "--trace" then .ok ({ o with trace := true }, args)
  -- What is printed is left out, and so is the option that silences it.
  else if arg = "--quiet" then .ok (o, args)
  else if arg = "--rv32" then .ok ({ o with xlen := .rv32 }, args)
  else if arg = "--rv64" then .ok ({ o with xlen := .rv64 }, args)
  else if arg = "--sample" then
    value arg args fun v =>
      number v "--sample wants a number of steps" fun n =>
        { o with sample := n }
  else if arg = "--kernel" then
    value arg args fun v => .ok { o with kernel := some v }
  else if arg = "--dtb" then
    value arg args fun v => .ok { o with dtb := some v }
  else if arg = "--mem" then
    value arg args fun v =>
      number v "--mem wants a number of MiB" fun m =>
        { o with memMib := m.toNat }
  else if arg = "--max-steps" then
    value arg args fun v =>
      number v "--max-steps wants a number" fun m => { o with maxSteps := m }
  else if "--".toList.isPrefixOf arg.toList then
    .error ("unknown flag " ++ arg)
  else .ok ({ o with image := some arg }, args)

/-- What is left of the arguments is the end of them. -/
def Leaves (args : List String) (read : Read) : Prop :=
  ∀ o rest, read = .ok (o, rest) → rest <:+ args

theorem leaves_all (args : List String) (o : Options) :
    Leaves args (.ok (o, args)) := by
  intro o' rest hread
  cases hread
  exact List.suffix_refl _

theorem value_leaves (arg : String) (args : List String)
    (set : String → Except String Options) :
    Leaves args (value arg args set) := by
  intro o rest hread
  cases args with
  | nil => cases hread
  | cons v args =>
      simp only [value] at hread
      cases hset : set v with
      | error e =>
          rw [hset] at hread
          cases hread
      | ok o' =>
          rw [hset] at hread
          cases hread
          exact List.suffix_cons v _

theorem parseArg_leaves (arg : String) (args : List String) (o : Options) :
    Leaves args (parseArg arg args o) := by
  unfold parseArg
  refine iteInduction (fun _ => leaves_all args _) fun _ => ?_
  refine iteInduction (fun _ => leaves_all args o) fun _ => ?_
  refine iteInduction (fun _ => leaves_all args _) fun _ => ?_
  refine iteInduction (fun _ => leaves_all args _) fun _ => ?_
  refine iteInduction (fun _ => value_leaves _ _ _) fun _ => ?_
  refine iteInduction (fun _ => value_leaves _ _ _) fun _ => ?_
  refine iteInduction (fun _ => value_leaves _ _ _) fun _ => ?_
  refine iteInduction (fun _ => value_leaves _ _ _) fun _ => ?_
  refine iteInduction (fun _ => value_leaves _ _ _) fun _ => ?_
  refine iteInduction (fun _ => ?_) fun _ => leaves_all args _
  intro o' rest hread
  cases hread

def parseArgs (args : List String) (o : Options) : Except String Options :=
  match args with
  | [] => .ok o
  | arg :: args =>
      match _hread : parseArg arg args o with
      | .error e => .error e
      | .ok (o, rest) => parseArgs rest o
termination_by args.length
decreasing_by
  exact Nat.lt_succ_of_le (parseArg_leaves arg args _ _ _ _hread).length_le

/-- The options before any argument is read. -/
def unsaid : Options where
  image := none
  kernel := none
  dtb := none
  memMib := 0
  xlen := .rv64
  trace := false
  sample := 0
  maxSteps := DEFAULT_MAX_STEPS

/-- A kernel needs considerably more room than a test binary. -/
def withMemory (o : Options) : Options :=
  if o.memMib = 0 then
    { o with memMib := if o.kernel.isSome then 256 else 64 }
  else o

def parse (args : List String) : Except String Options :=
  (parseArgs args unsaid).map withMemory

/-- The program from its arguments to its exit code. -/
def exitCode (files : Files) (args : List String) : Checked ℕ :=
  match parse args with
  | .error _ => fun _ => some REFUSED
  | .ok o => fun profile => (main files o profile).map Prod.fst

theorem parseNumber_repr (n : BitVec 64) :
    parseNumber n.toNat.repr = some n := by
  have hdigits : ∀ ch ∈ Nat.toDigits 10 n.toNat, ch.isDigit = true :=
    fun ch hch => Nat.isDigit_of_mem_toDigits (by decide) (by decide) hch
  have hplain : (Nat.toDigits 10 n.toNat).head? ≠ some '+' := by
    intro hplus
    have hdigit := hdigits '+' (List.mem_of_head? hplus)
    cases hdigit
  have hall : (Nat.toDigits 10 n.toNat).all Char.isDigit = true :=
    List.all_eq_true.mpr hdigits
  unfold parseNumber
  rw [Nat.toList_repr, if_neg hplain]
  dsimp only
  rw [Nat.ofDigitChars_ten_toDigits,
    if_pos ⟨Nat.toDigits_ne_nil, hall, n.isLt⟩, BitVec.ofNat_toNat,
    BitVec.setWidth_eq]

theorem parseArgs_cons {arg : String} {args rest : List String}
    {o o' : Options} (hread : parseArg arg args o = .ok (o', rest)) :
    parseArgs (arg :: args) o = parseArgs rest o' := by
  rw [parseArgs]
  split
  · next hfail =>
      rw [hread] at hfail
      cases hfail
  · next hdone =>
      rw [hread] at hdone
      cases hdone
      rfl

/-- A flag with its value, where there is one. -/
def flagged (flag : String) : Option String → List String
  | none => []
  | some v => [flag, v]

def widthFlag : Xlen → String
  | .rv32 => "--rv32"
  | .rv64 => "--rv64"

/-- Arguments that say the options. -/
def arguments (o : Options) : List String :=
  widthFlag o.xlen ::
  ((if o.trace then ["--trace"] else []) ++
    (flagged "--kernel" o.kernel ++ (flagged "--dtb" o.dtb ++
      (["--mem", o.memMib.repr, "--sample", o.sample.toNat.repr,
        "--max-steps", o.maxSteps.toNat.repr] ++ o.image.toList))))

/-- An image is not taken for a flag, and the size of the memory is a number
of the host. -/
structure Sayable (o : Options) : Prop where
  image : ∀ path, o.image = some path →
    "--".toList.isPrefixOf path.toList = false
  memory : o.memMib < 2 ^ 64

section Flags

variable (args : List String) (o : Options)

theorem parse_xlen (xlen : Xlen) :
    parseArgs (widthFlag xlen :: args) o =
      parseArgs args { o with xlen := xlen } := by
  cases xlen <;> exact parseArgs_cons (by simp [parseArg, widthFlag])

theorem parse_trace (trace : Bool) (hunsaid : o.trace = false) :
    parseArgs ((if trace then ["--trace"] else []) ++ args) o =
      parseArgs args { o with trace := trace } := by
  cases trace with
  | true => exact parseArgs_cons (by simp [parseArg])
  | false =>
      have hsame : { o with trace := false } = o := by rw [← hunsaid]
      rw [hsame]
      rfl

theorem parse_kernel (kernel : Option String) (hunsaid : o.kernel = none) :
    parseArgs (flagged "--kernel" kernel ++ args) o =
      parseArgs args { o with kernel := kernel } := by
  cases kernel with
  | some path =>
      exact parseArgs_cons (by simp [parseArg, value, Except.map])
  | none =>
      have hsame : { o with kernel := none } = o := by rw [← hunsaid]
      rw [hsame]
      rfl

theorem parse_dtb (dtb : Option String) (hunsaid : o.dtb = none) :
    parseArgs (flagged "--dtb" dtb ++ args) o =
      parseArgs args { o with dtb := dtb } := by
  cases dtb with
  | some path =>
      exact parseArgs_cons (by simp [parseArg, value, Except.map])
  | none =>
      have hsame : { o with dtb := none } = o := by rw [← hunsaid]
      rw [hsame]
      rfl

theorem parse_mem {memMib : ℕ} (hmemory : memMib < 2 ^ 64) :
    parseArgs ("--mem" :: memMib.repr :: args) o =
      parseArgs args { o with memMib := memMib } := by
  have hsize : (BitVec.ofNat 64 memMib).toNat = memMib := by
    rw [BitVec.toNat_ofNat, Nat.mod_eq_of_lt hmemory]
  have hnumber := parseNumber_repr (BitVec.ofNat 64 memMib)
  rw [hsize] at hnumber
  exact parseArgs_cons
    (by simp [parseArg, value, number, Except.map, hnumber, hsize])

theorem parse_sample (sample : BitVec 64) :
    parseArgs ("--sample" :: sample.toNat.repr :: args) o =
      parseArgs args { o with sample := sample } :=
  parseArgs_cons
    (by simp [parseArg, value, number, Except.map, parseNumber_repr])

theorem parse_maxSteps (maxSteps : BitVec 64) :
    parseArgs ("--max-steps" :: maxSteps.toNat.repr :: args) o =
      parseArgs args { o with maxSteps := maxSteps } :=
  parseArgs_cons
    (by simp [parseArg, value, number, Except.map, parseNumber_repr])

end Flags

theorem parse_image {path : String} (o : Options)
    (hpath : "--".toList.isPrefixOf path.toList = false) :
    parseArgs [path] o = .ok { o with image := some path } := by
  have hflag : ∀ flag : String, "--".toList.isPrefixOf flag.toList = true →
      path ≠ flag := by
    rintro flag hflag rfl
    exact Bool.false_ne_true (hpath.symm.trans hflag)
  have hread :
      parseArg path [] o = .ok ({ o with image := some path }, []) := by
    unfold parseArg
    rw [if_neg (hflag _ rfl), if_neg (hflag _ rfl), if_neg (hflag _ rfl),
      if_neg (hflag _ rfl), if_neg (hflag _ rfl), if_neg (hflag _ rfl),
      if_neg (hflag _ rfl), if_neg (hflag _ rfl), if_neg (hflag _ rfl), hpath]
    rfl
  rw [parseArgs_cons hread, parseArgs]

/-- Whatever the options, there are arguments that say them. -/
theorem parse_arguments {o : Options} (hsayable : Sayable o) :
    parse (arguments o) = .ok (withMemory o) := by
  have hread : parseArgs (arguments o) unsaid = .ok o := by
    obtain ⟨image, kernel, dtb, memMib, xlen, trace, sample, maxSteps⟩ := o
    have hmemory : memMib < 2 ^ 64 := hsayable.memory
    unfold arguments
    dsimp only
    rw [parse_xlen, parse_trace _ _ _ rfl, parse_kernel _ _ _ rfl,
      parse_dtb _ _ _ rfl]
    dsimp only [List.cons_append, List.nil_append]
    rw [parse_mem _ _ hmemory, parse_sample, parse_maxSteps]
    cases image with
    | none => rw [Option.toList_none, parseArgs, unsaid]
    | some path =>
        rw [Option.toList_some, parse_image _ (hsayable.image path rfl)]
  unfold parse
  rw [hread]
  rfl

/-- What is said of an argument that makes no sense. -/
inductive Complains (arg : String) : String → Prop where
  | missing : Complains arg (arg ++ " needs a value")
  | unread (kind : String) : Complains arg (arg ++ " wants a number" ++ kind)
  | unknown : Complains arg ("unknown flag " ++ arg)

theorem number_complains {arg v wants e : String}
    {set : BitVec 64 → Options} (kind : String)
    (hwants : wants = arg ++ " wants a number" ++ kind)
    (hfail : number v wants set = .error e) : Complains arg e := by
  unfold number at hfail
  cases hnumber : parseNumber v with
  | some n =>
      rw [hnumber] at hfail
      cases hfail
  | none =>
      rw [hnumber, hwants] at hfail
      cases hfail
      exact .unread kind

/-- A reading that fails says so of the argument. -/
def Blames (arg : String) (read : Read) : Prop :=
  ∀ e, read = .error e → Complains arg e

theorem blames_ok (arg : String) (args : List String) (o : Options) :
    Blames arg (.ok (o, args)) :=
  fun _ hfail => by cases hfail

theorem value_blames {arg : String} (args : List String)
    {set : String → Except String Options}
    (hset : ∀ v e, set v = .error e → Complains arg e) :
    Blames arg (value arg args set) := by
  intro e hfail
  cases args with
  | nil =>
      cases hfail
      exact .missing
  | cons v rest =>
      simp only [value] at hfail
      cases hread : set v with
      | error e' =>
          rw [hread] at hfail
          cases hfail
          exact hset v _ hread
      | ok o =>
          rw [hread] at hfail
          cases hfail

theorem parseArg_blames (arg : String) (args : List String) (o : Options) :
    Blames arg (parseArg arg args o) := by
  unfold parseArg
  refine iteInduction (fun _ => blames_ok arg args _) fun _ => ?_
  refine iteInduction (fun _ => blames_ok arg args o) fun _ => ?_
  refine iteInduction (fun _ => blames_ok arg args _) fun _ => ?_
  refine iteInduction (fun _ => blames_ok arg args _) fun _ => ?_
  refine iteInduction (fun hsample => ?_) fun _ => ?_
  · subst hsample
    exact value_blames args fun v e => number_complains " of steps" rfl
  refine iteInduction (fun _ => ?_) fun _ => ?_
  · exact value_blames args fun v e hfail => by cases hfail
  refine iteInduction (fun _ => ?_) fun _ => ?_
  · exact value_blames args fun v e hfail => by cases hfail
  refine iteInduction (fun hmem => ?_) fun _ => ?_
  · subst hmem
    exact value_blames args fun v e => number_complains " of MiB" rfl
  refine iteInduction (fun hmax => ?_) fun _ => ?_
  · subst hmax
    exact value_blames args fun v e => number_complains "" rfl
  refine iteInduction (fun _ => ?_) fun _ => blames_ok arg args _
  intro e hfail
  cases hfail
  exact .unknown

theorem parseArgs_complains {args : List String} {o : Options} {e : String}
    (hfail : parseArgs args o = .error e) : ∃ arg ∈ args, Complains arg e := by
  fun_induction parseArgs args o with
  | case1 o => cases hfail
  | case2 o arg args e' hread =>
      cases hfail
      exact ⟨arg, List.mem_cons_self, parseArg_blames arg args o _ hread⟩
  | case3 o arg args o' rest hread ih =>
      obtain ⟨named, hmem, hcomplains⟩ := ih hfail
      have hlater := (parseArg_leaves arg args o _ _ hread).subset hmem
      exact ⟨named, List.mem_cons_of_mem _ hlater, hcomplains⟩

/-! ## The program and its arguments -/

/-- Every choice of options can be said, and is then what runs.  Arguments
that are refused end the program with the code for it, and the complaint names
one of them. -/
theorem program_reads (files : Files) (profile : Profile) :
    (∀ o, Sayable o → exitCode files (arguments o) profile =
        (main files (withMemory o) profile).map Prod.fst) ∧
      ∀ args e, parse args = .error e →
        exitCode files args profile = some REFUSED ∧
          ∃ arg ∈ args, Complains arg e := by
  constructor
  · intro o hsayable
    unfold exitCode
    rw [parse_arguments hsayable]
  · intro args e hrefused
    constructor
    · unfold exitCode
      rw [hrefused]
    · unfold parse at hrefused
      cases hread : parseArgs args unsaid with
      | ok o =>
          rw [hread] at hrefused
          cases hrefused
      | error e' =>
          rw [hread] at hrefused
          cases hrefused
          exact parseArgs_complains hread

theorem looping_sayable : Sayable loopingOptions := by
  refine ⟨fun path hpath => ?_, by decide⟩
  cases hpath
  rfl

/-- The looping image is run for its two steps, and a flag without its value
is refused. -/
theorem program_reads_looping :
    exitCode loopingFiles (arguments loopingOptions) .debug = some 3 ∧
      exitCode loopingFiles ["loop.bin", "--mem"] .debug = some 2 := by
  have hcode : (main loopingFiles loopingOptions .debug).map Prod.fst =
      some 3 := by decide +kernel
  have hrefused : parse ["loop.bin", "--mem"] =
      .error "--mem needs a value" := by
    have himage : parseArg "loop.bin" ["--mem"] unsaid =
        .ok ({ unsaid with image := some "loop.bin" }, ["--mem"]) := by
      simp [parseArg]
    unfold parse
    rw [parseArgs_cons himage, parseArgs]
    simp [parseArg, value, Except.map]
  have hprogram := program_reads loopingFiles .debug
  exact ⟨(hprogram.1 _ looping_sayable).trans hcode,
    (hprogram.2 _ _ hrefused).1⟩

end Main

end Nanoemu
