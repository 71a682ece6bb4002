import CspProc.Editing
import CspProc.Store

/-! # Numbers in commands

What the numbers that are typed for editing commands mean: the index of
`proc pop`, the slot of `proc call`, and the node of an instruction. All of them
go through `atoi`, which gets a number right that an `int` holds, and are then
stored in a narrower variable without a check.

`numbers_mean_iff` says for each of the three when the number still means what
it says.
-/

namespace CspProc

/-! ## Decimal numbers -/

/-- A digit. -/
def isDigit (b : UInt8) : Bool := 48 ≤ b && b ≤ 57

/-- The number that a string of digits stands for. -/
def digitsNumber (bs : List UInt8) : Option Nat :=
  if bs ≠ [] ∧ bs.all isDigit = true then some (digitsValue bs) else none

/-- The decimal integer that a string is. -/
def decimalOf (s : CStr) : Option Int :=
  match s.bytes with
  | 45 :: bs => (digitsNumber bs).map fun n => Int.neg (Int.ofNat n)
  | 43 :: bs => (digitsNumber bs).map Int.ofNat
  | bs => (digitsNumber bs).map Int.ofNat

theorem cInt_of_fits {k : Int} (hlo : -2 ^ 31 ≤ k) (hhi : k < 2 ^ 31) : cInt k = k := by
  unfold cInt
  rw [Int.bmod_eq_of_le (by omega) (by omega)]

/-- A digit is not a space. -/
theorem isSpace_of_isDigit {b : UInt8} (h : isDigit b = true) : isSpace b = false := by
  simp only [isDigit, Bool.and_eq_true, decide_eq_true_eq] at h
  rcases h with ⟨hge, hle⟩
  rw [UInt8.le_iff_toNat_le] at hge
  have hge' : 48 ≤ b.toNat := hge
  have hspace : b ≠ 32 := by
    intro heq
    rw [heq] at hge'
    exact absurd hge' (by decide)
  have hcontrol : ¬ b ≤ 13 := by
    rw [UInt8.le_iff_toNat_le]
    intro hle13
    have hle13' : b.toNat ≤ 13 := hle13
    omega
  simp [isSpace, hspace, hcontrol]

/-- A string that is a number begins with a digit, and the digits give the
number. -/
theorem digitsNumber_eq_some {bs : List UInt8} {n : Nat} (h : digitsNumber bs = some n) :
    digitsValue bs = n ∧ ∃ b rest, bs = b :: rest ∧ isDigit b = true := by
  unfold digitsNumber at h
  split at h
  case isTrue hdigits =>
    cases bs with
    | nil => exact absurd rfl hdigits.1
    | cons b rest =>
        refine ⟨Option.some.inj h, b, rest, rfl, ?_⟩
        exact List.all_eq_true.mp hdigits.2 b List.mem_cons_self
  case isFalse => cases h

theorem atoi_minus {s : CStr} {bs : List UInt8} (h : s.bytes = 45 :: bs) :
    atoi s = cInt (-(digitsValue bs : Int)) := by
  unfold atoi
  rw [h, List.dropWhile_cons_of_neg (by decide)]
  simp only

theorem atoi_plus {s : CStr} {bs : List UInt8} (h : s.bytes = 43 :: bs) :
    atoi s = cInt (digitsValue bs : Int) := by
  unfold atoi
  rw [h, List.dropWhile_cons_of_neg (by decide)]
  simp only

/-- `atoi` gets a number right that an `int` holds. -/
theorem atoi_of_decimal {s : CStr} {k : Int} (h : decimalOf s = some k) (hlo : -2 ^ 31 ≤ k)
    (hhi : k < 2 ^ 31) : atoi s = k := by
  unfold decimalOf at h
  split at h
  case h_1 bs hbytes =>
    rcases Option.map_eq_some_iff.mp h with ⟨n, hn, hk⟩
    have hvalue : -(digitsValue bs : Int) = k := by
      rw [(digitsNumber_eq_some hn).1]
      exact hk
    rw [atoi_minus hbytes, hvalue, cInt_of_fits hlo hhi]
  case h_2 bs hbytes =>
    rcases Option.map_eq_some_iff.mp h with ⟨n, hn, hk⟩
    have hvalue : (digitsValue bs : Int) = k := by
      rw [(digitsNumber_eq_some hn).1]
      exact hk
    rw [atoi_plus hbytes, hvalue, cInt_of_fits hlo hhi]
  case h_3 hminus hplus =>
    rcases Option.map_eq_some_iff.mp h with ⟨n, hn, hk⟩
    rcases digitsNumber_eq_some hn with ⟨hdigits, b, rest, hbytes, hdigit⟩
    have hvalue : (digitsValue s.bytes : Int) = k := by
      rw [hdigits]
      exact hk
    have hspace : s.bytes.dropWhile isSpace = s.bytes := by
      rw [hbytes, List.dropWhile_cons_of_neg (by simp [isSpace_of_isDigit hdigit])]
    unfold atoi
    rw [hspace]
    split
    case h_1 bs hsign => exact absurd hsign (hminus bs)
    case h_2 bs hsign => exact absurd hsign (hplus bs)
    case h_3 => rw [hvalue, cInt_of_fits hlo hhi]

/-! ## Narrower variables -/

theorem toNat_ofInt_uint8 (k : Int) : ((UInt8.ofInt k).toNat : Int) = k % 256 := by
  show ((UInt8.ofNat (k % 2 ^ 8).toNat).toNat : Int) = k % 256
  rw [UInt8.toNat_ofNat']
  omega

theorem toNat_ofInt_uint16 (k : Int) : ((UInt32.ofInt k).toUInt16.toNat : Int) = k % 65536 := by
  show ((UInt32.ofNat (k % 2 ^ 32).toNat).toUInt16.toNat : Int) = k % 65536
  rw [UInt32.toNat_toUInt16, UInt32.toNat_ofNat']
  omega

/-- The number is kept by 8 bits when they hold it. -/
theorem ofInt_uint8_of_fits {k : Int} (hlo : 0 ≤ k) (hhi : k < 256) :
    (UInt8.ofInt k).toNat = k.toNat := by
  have hstep := toNat_ofInt_uint8 k
  rw [Int.emod_eq_of_lt hlo hhi] at hstep
  omega

/-! ## Procedures that are edited -/

/-- The instructions in use lie in the array, and have known types. -/
structure EditBuffer.InUse {n : Nat} (p : EditBuffer n) : Prop where
  count_le : p.instructionCount.toNat ≤ n
  known : ∀ ins ∈ p.list, ins.instruction.isKnown = true

theorem EditBuffer.InUse.append {n : Nat} {p : EditBuffer n} (hp : p.InUse) (hn : n ≤ 255)
    (hlt : p.instructionCount.toNat < n) {ins : ProcInstruction}
    (hknown : ins.instruction.isKnown = true) : (p.append ins).InUse := by
  rcases p.list_append ins hn hlt with ⟨hlist, hcount⟩
  constructor
  · rw [hcount]
    exact hlt
  · rw [hlist]
    intro ins' hins'
    rcases List.mem_append.mp hins' with hold | hnew
    · exact hp.known ins' hold
    · rw [List.mem_singleton.mp hnew]
      exact hknown

/-- The commands that append an instruction. -/
def EditCommand.appends {n : Nat} : EditCommand n → Bool
  | .new _ | .pop => false
  | _ => true

/-- The place of the node among the arguments, counted from the options on, of
the commands that have one. -/
def EditCommand.nodePlace {n : Nat} : EditCommand n → Option Nat
  | .block | .ifelse | .unop => some 4
  | .set => some 3
  | .binop => some 5
  | .call => some 2
  | _ => none

namespace Editor

variable (ed : Editor)

/-- What a command that appends reads. -/
def read (c : EditCommand ed.maxInstructions) (argv : List CStr) : Nat → Option ProcInstruction :=
  match c with
  | .block => ed.readCondition argv .block
  | .ifelse => ed.readCondition argv .ifelse
  | .noop => readNoop
  | .set => ed.readSet argv
  | .unop => ed.readUnop argv
  | .binop => ed.readBinop argv
  | .call => ed.readCall argv
  | .new _ | .pop => fun _ => none

/-- The index of the first argument that is no option, less one. -/
def argi (argv : List CStr) : Nat := (ed.optparseParse argv.tail).toNat

/-- The argument at a place is the decimal integer `k`, which fits an `int`. -/
structure Typed (argv : List CStr) (place : Nat) (k : Int) : Prop where
  parsed : 0 ≤ ed.optparseParse argv.tail
  written : (argv[ed.argi argv + place]?).bind decimalOf = some k
  lo : -2 ^ 31 ≤ k
  hi : k < 2 ^ 31

variable {ed}

theorem Typed.atoi_eq {argv : List CStr} {place : Nat} {k : Int} (h : ed.Typed argv place k) :
    ∃ s, argv[ed.argi argv + place]? = some s ∧ atoi s = k := by
  rcases Option.bind_eq_some_iff.mp h.written with ⟨s, hs, hk⟩
  exact ⟨s, hs, atoi_of_decimal hk h.lo h.hi⟩

/-- The commands that append an instruction read it first. -/
theorem run_of_appends {c : EditCommand ed.maxInstructions} (hc : c.appends = true)
    (argv : List CStr) (current : ed.Current) :
    ed.run ⟨c, argv⟩ current = ed.addInstruction argv (ed.read c argv) current := by
  cases c with
  | new | pop => cases hc
  | block | ifelse | noop | set | unop | binop | call => rfl

theorem appends_of_nodePlace {c : EditCommand ed.maxInstructions} {place : Nat}
    (hplace : c.nodePlace = some place) : c.appends = true := by
  cases c with
  | new | noop | pop => cases hplace
  | block | ifelse | set | unop | binop | call => rfl

/-- The node of the instruction is the argument at its place. -/
theorem node_of_read {c : EditCommand ed.maxInstructions} {argv : List CStr} {place i : Nat}
    {ins : ProcInstruction} (hplace : c.nodePlace = some place)
    (hread : ed.read c argv i = some ins) : ins.node = ed.nodeArg argv (i + place) := by
  cases c with
  | new | noop | pop => cases hplace
  | block | ifelse | set | unop | binop | call =>
      cases hplace
      simp only [read, readCondition, readSet, readUnop, readBinop, readCall,
        Option.bind_eq_bind, Option.bind_eq_some_iff, pure, Option.some.injEq] at hread
      grind

/-- An instruction that has been read is appended, when there is room for it. -/
theorem addInstruction_of_read {p : EditBuffer ed.maxInstructions} {argv : List CStr}
    {read : Nat → Option ProcInstruction} {ins : ProcInstruction}
    (hroom : p.instructionCount.toNat < ed.maxInstructions)
    (hparsed : 0 ≤ ed.optparseParse argv.tail) (hread : read (ed.argi argv) = some ins) :
    ed.addInstruction argv read (some p) = some (.success, some (p.append ins)) := by
  have hadd : ed.instructionCanBeAdded (some p) = true :=
    ed.instructionCanBeAdded_eq_true.mpr ⟨p, rfl, hroom⟩
  unfold argi at hread
  unfold addInstruction
  rw [if_neg (by simp [hadd])]
  dsimp only
  rw [if_neg (not_lt.mpr hparsed), hread]
  simp [appendInstruction, hroom]

/-- What a command that appends reads has a known type. -/
theorem known_of_read {c : EditCommand ed.maxInstructions} {argv : List CStr} {i : Nat}
    {ins : ProcInstruction} (hread : ed.read c argv i = some ins) :
    ins.instruction.isKnown = true := by
  cases c with
  | new | pop => cases hread
  | noop =>
      rw [← Option.some.inj hread]
      rfl
  | block | ifelse | set | unop | binop | call =>
      simp only [read, readCondition, readSet, readUnop, readBinop, readCall,
        Option.bind_eq_bind, Option.bind_eq_some_iff, pure, Option.some.injEq] at hread
      grind [Instruction.isKnown]

/-- A command that appends either refuses and changes nothing, or appends what
it has read. -/
theorem addInstruction_cases {argv : List CStr} {read : Nat → Option ProcInstruction}
    {current current' : ed.Current} {ret : SlashResult}
    (h : ed.addInstruction argv read current = some (ret, current')) :
    current' = current ∨ ∃ p ins, current = some p ∧
      p.instructionCount.toNat < ed.maxInstructions ∧ read (ed.argi argv) = some ins ∧
      current' = some (p.append ins) := by
  unfold addInstruction at h
  by_cases hadd : ed.instructionCanBeAdded current = false
  · rw [if_pos hadd] at h
    exact .inl (Prod.mk.inj (Option.some.inj h)).2.symm
  · rw [if_neg hadd] at h
    rcases ed.instructionCanBeAdded_eq_true.mp (by simpa using hadd) with ⟨p, rfl, hroom⟩
    dsimp only at h
    split at h
    · exact .inl (Prod.mk.inj (Option.some.inj h)).2.symm
    · split at h
      · exact .inl (Prod.mk.inj (Option.some.inj h)).2.symm
      · rename_i ins hins
        simp only [appendInstruction, hroom, if_true, Option.map_some, Option.some.injEq,
          Prod.mk.injEq] at h
        exact .inr ⟨p, ins, rfl, hroom, hins, h.2.symm⟩

/-- Removing either changes nothing, or erases an instruction in use. -/
theorem removeAt_cases {p : EditBuffer ed.maxInstructions} (hp : p.InUse) {step : UInt8}
    {current' : ed.Current} {ret : SlashResult}
    (h : ed.removeAt p step = some (ret, current')) :
    current' = some p ∨ ∃ p', current' = some p' ∧ p'.list = p.list.eraseIdx step.toNat ∧
      p'.instructionCount.toNat = p.instructionCount.toNat - 1 := by
  by_cases hin : step.toNat < p.instructionCount.toNat
  · rcases ed.removeAt_erases hp.count_le hp.known hin with ⟨p', hrun, hlist, hcount⟩
    rw [hrun] at h
    refine .inr ⟨p', (Prod.mk.inj (Option.some.inj h)).2.symm, hlist, ?_⟩
    rw [hcount, toNat_pred (by omega)]
  · rw [ed.removeAt_refused (not_lt.mp hin)] at h
    exact .inl (Prod.mk.inj (Option.some.inj h)).2.symm

/-- The instructions in use lie in the array, have known types, and `P` holds of them. -/
def Keeps (P : ProcInstruction → Prop) {n : Nat} (p : EditBuffer n) : Prop :=
  p.InUse ∧ ∀ ins ∈ p.list, P ins

section Keeps

variable {P : ProcInstruction → Prop}

theorem removeAt_keeps {p : EditBuffer ed.maxInstructions} (hp : Keeps P p) {step : UInt8}
    {current' : ed.Current} {ret : SlashResult}
    (h : ed.removeAt p step = some (ret, current')) : ∀ p' ∈ current', Keeps P p' := by
  intro q hq
  rcases removeAt_cases hp.1 h with hsame | ⟨p', hp', hlist, hcount⟩
  · rw [hsame] at hq
    rw [← Option.some.inj hq]
    exact hp
  · rw [hp'] at hq
    rw [← Option.some.inj hq]
    have hle := hp.1.count_le
    have hmem : ∀ ins ∈ p'.list, ins ∈ p.list := by
      rw [hlist]
      exact fun _ hins => List.mem_of_mem_eraseIdx hins
    refine ⟨⟨?_, fun ins hins => hp.1.known ins (hmem ins hins)⟩,
      fun ins hins => hp.2 ins (hmem ins hins)⟩
    omega

/-- What holds of every instruction that is read, holds of all that are in use. -/
theorem run_keeps {input : ed.EditInput} {current current' : ed.Current} {ret : SlashResult}
    (hread : ∀ ins, ed.read input.command input.argv (ed.argi input.argv) = some ins → P ins)
    (hcurrent : ∀ p ∈ current, Keeps P p) (h : ed.run input current = some (ret, current')) :
    ∀ p ∈ current', Keeps P p := by
  rcases input with ⟨c, argv⟩
  -- one instruction more, or none; or the procedure is new, or one instruction shorter
  by_cases hc : c.appends = true
  · rw [run_of_appends hc] at h
    rcases addInstruction_cases h with hsame | ⟨p, ins, hp, hroom, hins, happended⟩
    · rw [hsame]
      exact hcurrent
    · rcases hcurrent p hp with ⟨huse, hall⟩
      rw [happended]
      intro p' hp'
      rw [← Option.some.inj hp']
      refine ⟨huse.append ed.max_le hroom (known_of_read hins), ?_⟩
      rw [(p.list_append ins ed.max_le hroom).1]
      intro ins' hins'
      rcases List.mem_append.mp hins' with hold | hnew
      · exact hall ins' hold
      · rw [List.mem_singleton.mp hnew]
        exact hread ins hins
  · cases c with
    | block | ifelse | noop | set | unop | binop | call => exact absurd rfl hc
    | new memory =>
        obtain rfl : some { memory with instructionCount := 0 } = current' :=
          (Prod.mk.inj (Option.some.inj h)).2
        intro p' hp'
        rw [← Option.some.inj hp']
        exact ⟨⟨Nat.zero_le _, nofun⟩, nofun⟩
    | pop =>
        cases current with
        | none =>
            rw [← (Prod.mk.inj (Option.some.inj h)).2]
            nofun
        | some p =>
            have hp : Keeps P p := hcurrent p rfl
            simp only [run, procPop] at h
            split at h
            · rw [← (Prod.mk.inj (Option.some.inj h)).2]
              exact hcurrent
            · split at h
              · exact removeAt_keeps hp h
              · exact removeAt_keeps hp h

end Keeps

/-- Editing keeps the instructions in use in the array, and their types known. -/
theorem run_inUse {input : ed.EditInput} {current current' : ed.Current} {ret : SlashResult}
    (hcurrent : ∀ p ∈ current, p.InUse) (h : ed.run input current = some (ret, current')) :
    ∀ p ∈ current', p.InUse := by
  have hkeeps := run_keeps (P := fun _ => True) (fun _ _ => trivial)
    (fun p hp => ⟨hcurrent p hp, fun _ _ => trivial⟩) h
  exact fun p hp => (hkeeps p hp).1

/-- It is so after every sequence of commands. -/
theorem inUse_of_reaches {inputs : List ed.EditInput} {current : ed.Current}
    (h : Reaches ed.next (fun _ _ => True) none inputs current) : ∀ p ∈ current, p.InUse := by
  refine h.invariant (P := fun _ current => ∀ p ∈ current, p.InUse) nofun ?_
  intro inputs current input current' hcurrent _ hnext
  rcases Option.map_eq_some_iff.mp hnext with ⟨⟨ret, current''⟩, hrun, rfl⟩
  exact run_inUse hcurrent hrun

/-! ## What numbers mean -/

/-- `proc pop k` removes the instruction at index `k`, and is refused when there
is none. -/
structure PopMeans (argv : List CStr) (p : EditBuffer ed.maxInstructions) (k : Int) : Prop where
  removed : 0 ≤ k → k < p.instructionCount.toNat →
    ∃ p', ed.procPop argv (some p) = some (.success, some p') ∧
      p'.list = p.list.eraseIdx k.toNat
  refused : ¬ (0 ≤ k ∧ k < p.instructionCount.toNat) →
    ed.procPop argv (some p) = some (.einval, some p)

/-- `proc call k` appends a call to slot `k`, and is rejected when there is no
such slot. -/
structure CallMeans (argv : List CStr) (p : EditBuffer ed.maxInstructions) (k : Int) : Prop where
  appended : 0 ≤ k → k ≤ maxProcSlot →
    ∃ p' node slot, ed.procCall argv (some p) = some (.success, some p') ∧
      p'.list = p.list ++ [⟨node, .call slot⟩] ∧ (slot.toNat : Int) = k
  rejected : ¬ (0 ≤ k ∧ k ≤ maxProcSlot) → ed.procCall argv (some p) = some (.einval, some p)

/-- An instruction that is given node `k` is stored with node `k`, and is
rejected when there is no such node. -/
structure NodeMeans (c : EditCommand ed.maxInstructions) (argv : List CStr)
    (p : EditBuffer ed.maxInstructions) (k : Int) : Prop where
  stored : 0 ≤ k → k ≤ 65535 →
    ∃ p' ins, ed.run ⟨c, argv⟩ (some p) = some (.success, some p') ∧
      p'.list = p.list ++ [ins] ∧ (ins.node.toNat : Int) = k
  rejected : ¬ (0 ≤ k ∧ k ≤ 65535) → ed.run ⟨c, argv⟩ (some p) = some (.einval, some p)

/-- The index is what is left of the number in 8 bits. -/
theorem procPop_eq {argv : List CStr} {k : Int} (harg : ed.Typed argv 1 k)
    (p : EditBuffer ed.maxInstructions) :
    ed.procPop argv (some p) = ed.removeAt p (UInt8.ofInt k) := by
  rcases harg.atoi_eq with ⟨s, hs, hk⟩
  unfold argi at hs
  unfold procPop
  dsimp only
  rw [if_neg (not_lt.mpr harg.parsed), hs]
  dsimp only
  rw [hk]

/-- An index counts as itself up to 255; a larger or a negative number is only
refused when what is left of it is no index. -/
theorem popMeans_iff {p : EditBuffer ed.maxInstructions} (hp : p.InUse) {argv : List CStr}
    {k : Int} (harg : ed.Typed argv 1 k) :
    PopMeans argv p k ↔ (0 ≤ k ∧ k < 256) ∨ (p.instructionCount.toNat : Int) ≤ k % 256 := by
  have hstep := toNat_ofInt_uint8 k
  have hcount := p.instructionCount.toNat_lt
  constructor
  · intro h
    by_contra hno
    -- the number is no index, and what is left of it is one
    have hrefused := h.refused (by omega)
    have hin : (UInt8.ofInt k).toNat < p.instructionCount.toNat := by omega
    rcases ed.removeAt_erases hp.count_le hp.known hin with
      ⟨p', hrun, -⟩
    rw [procPop_eq harg, hrun] at hrefused
    cases hrefused
  · intro h
    constructor
    · intro hlo hhi
      have hindex := ofInt_uint8_of_fits hlo (by omega)
      have hin : (UInt8.ofInt k).toNat < p.instructionCount.toNat := by omega
      rcases ed.removeAt_erases hp.count_le hp.known hin with
        ⟨p', hrun, hlist, -⟩
      rw [hindex] at hlist
      exact ⟨p', by rw [procPop_eq harg, hrun], hlist⟩
    · intro hout
      rw [procPop_eq harg]
      apply ed.removeAt_refused
      omega

/-- `proc call` appends a call to what is left of the number in 8 bits. -/
theorem procCall_eq {p : EditBuffer ed.maxInstructions} {argv : List CStr} {k : Int}
    (harg : ed.Typed argv 1 k) (hroom : p.instructionCount.toNat < ed.maxInstructions) :
    ed.procCall argv (some p) = some (.success, some (p.append
      ⟨ed.nodeArg argv (ed.argi argv + 2), .call (UInt8.ofInt k)⟩)) := by
  rcases harg.atoi_eq with ⟨s, hs, hk⟩
  refine addInstruction_of_read hroom harg.parsed ?_
  unfold readCall
  rw [hs, ← hk]
  rfl

/-- A slot is taken as it is written exactly when there is such a slot. -/
theorem callMeans_iff {p : EditBuffer ed.maxInstructions} {argv : List CStr} {k : Int}
    (harg : ed.Typed argv 1 k) (hroom : p.instructionCount.toNat < ed.maxInstructions) :
    CallMeans argv p k ↔ 0 ≤ k ∧ k ≤ maxProcSlot := by
  have hslots : (maxProcSlot : Int) = 255 := rfl
  constructor
  · intro h
    by_contra hno
    -- it is appended all the same
    have hrejected := h.rejected hno
    rw [procCall_eq harg hroom] at hrejected
    cases hrejected
  · intro hslot
    constructor
    · intro hlo hhi
      refine ⟨_, ed.nodeArg argv (ed.argi argv + 2), UInt8.ofInt k, procCall_eq harg hroom,
        (p.list_append _ ed.max_le hroom).1, ?_⟩
      rw [ofInt_uint8_of_fits hlo (by omega)]
      omega
    · intro hno
      exact absurd hslot hno

/-- A node is taken as it is written exactly when 16 bits hold it. -/
theorem nodeMeans_iff {c : EditCommand ed.maxInstructions} {place : Nat}
    (hplace : c.nodePlace = some place) {p : EditBuffer ed.maxInstructions} {argv : List CStr}
    {k : Int} (harg : ed.Typed argv place k) (hroom : p.instructionCount.toNat < ed.maxInstructions)
    (hread : (ed.read c argv (ed.argi argv)).isSome = true) :
    NodeMeans c argv p k ↔ 0 ≤ k ∧ k ≤ 65535 := by
  rcases Option.isSome_iff_exists.mp hread with ⟨ins, hins⟩
  have hrun : ed.run ⟨c, argv⟩ (some p) = some (.success, some (p.append ins)) := by
    rw [run_of_appends (appends_of_nodePlace hplace)]
    exact addInstruction_of_read hroom harg.parsed hins
  have hnode : (ins.node.toNat : Int) = k % 65536 := by
    rcases harg.atoi_eq with ⟨s, hs, hk⟩
    rw [node_of_read hplace hins, nodeArg, hs]
    dsimp only
    rw [hk, toNat_ofInt_uint16]
  constructor
  · intro h
    by_contra hno
    have hrejected := h.rejected hno
    rw [hrun] at hrejected
    cases hrejected
  · intro hfits
    constructor
    · intro hlo hhi
      exact ⟨_, ins, hrun, (p.list_append ins ed.max_le hroom).1, by omega⟩
    · intro hno
      exact absurd hfits hno

/-- A typed number means what it says: as an index, as long as it is below 256,
or what is left of it in 8 bits is no index either; as a slot or as a node,
exactly when there is such a slot or node, since no number is rejected. -/
theorem numbers_mean_iff {p : EditBuffer ed.maxInstructions} (hp : p.InUse) {argv : List CStr}
    {k : Int} {place : Nat} (harg : ed.Typed argv place k) :
    (place = 1 →
      (PopMeans argv p k ↔ (0 ≤ k ∧ k < 256) ∨ (p.instructionCount.toNat : Int) ≤ k % 256)) ∧
    (p.instructionCount.toNat < ed.maxInstructions →
      (place = 1 → (CallMeans argv p k ↔ 0 ≤ k ∧ k ≤ maxProcSlot)) ∧
      ∀ c : EditCommand ed.maxInstructions, c.nodePlace = some place →
        (ed.read c argv (ed.argi argv)).isSome = true →
        (NodeMeans c argv p k ↔ 0 ≤ k ∧ k ≤ 65535)) := by
  constructor
  · intro hplace
    rw [hplace] at harg
    exact popMeans_iff hp harg
  · intro hroom
    constructor
    · intro hplace
      rw [hplace] at harg
      exact callMeans_iff harg hroom
    · intro c hplace hread
      exact nodeMeans_iff hplace harg hroom hread

/-- Two instructions that do nothing. -/
def twoNoops : EditBuffer wide.maxInstructions :=
  ⟨[⟨0, .noop⟩, ⟨1, .noop⟩, ⟨7, .noop⟩], 2, rfl⟩

/-- One number, or the same twice. -/
def numberArgs (digits : CStr) : List CStr := [.nil, digits, digits]

theorem twoNoops_inUse : twoNoops.InUse := by
  constructor
  · exact Nat.le_of_ble_eq_true rfl
  · decide

theorem one_typed : wide.Typed (numberArgs (.ofBytes [49] rfl)) 1 1 ∧
    wide.Typed (numberArgs (.ofBytes [49] rfl)) 2 1 := by
  constructor
  · exact ⟨by decide, by decide +kernel, by decide, by decide⟩
  · exact ⟨by decide, by decide +kernel, by decide, by decide⟩

/-- The number 1, as an index, a slot and a node. -/
theorem numbers_mean_one :
    PopMeans (numberArgs (.ofBytes [49] rfl)) twoNoops 1 ∧
      CallMeans (numberArgs (.ofBytes [49] rfl)) twoNoops 1 ∧
      NodeMeans .call (numberArgs (.ofBytes [49] rfl)) twoNoops 1 := by
  have hroom : twoNoops.instructionCount.toNat < wide.maxInstructions :=
    Nat.le_of_ble_eq_true rfl
  have hfirst := numbers_mean_iff twoNoops_inUse one_typed.1
  have hsecond := numbers_mean_iff twoNoops_inUse one_typed.2
  refine ⟨(hfirst.1 rfl).mpr (by decide), ((hfirst.2 hroom).1 rfl).mpr (by decide), ?_⟩
  exact ((hsecond.2 hroom).2 .call rfl (by decide +kernel)).mpr (by decide)

/-- 256 and 65536. -/
def tooLarge : List CStr := [.ofBytes [50, 53, 54] rfl, .ofBytes [54, 53, 53, 51, 54] rfl]

/-- `proc pop 256` removes the instruction at index 0, `proc call 256` calls slot
0, and with node 65536 an instruction is stored with node 0. -/
theorem larger_numbers_accepted :
    (wide.Typed (.nil :: tooLarge) 1 256 ∧ wide.Typed (.nil :: tooLarge) 2 65536) ∧
      ¬ PopMeans (.nil :: tooLarge) twoNoops 256 ∧ ¬ CallMeans (.nil :: tooLarge) twoNoops 256 ∧
      ¬ NodeMeans .call (.nil :: tooLarge) twoNoops 65536 := by
  refine ⟨⟨⟨by decide, by decide +kernel, by decide, by decide⟩,
    ⟨by decide, by decide +kernel, by decide, by decide⟩⟩, ?_, ?_, ?_⟩
  · intro h
    exact absurd (h.refused (by decide)) (by decide +kernel)
  · intro h
    exact absurd (h.rejected (by decide)) (by decide +kernel)
  · intro h
    exact absurd (h.rejected (by decide)) (by decide +kernel)

end Editor

end CspProc
