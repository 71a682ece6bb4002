import CspProc.Interp
import CspProc.Lib.System
import CspProc.Params

/-! # The instruction handlers

`proc_runtime_ifelse`, `_set`, `_unop`, `_binop` and `_block` over parameters.
They are the handlers of an interpreter whose state is that of libparam and the
log of all accesses, instruction by instruction.

`proc_runtime_block` polls a condition; the two runtimes differ in their clock.
How often it polls is up to the clock and has no bound, so a block is followed
for `maxPolls` polls, a number that nothing depends on.
-/

namespace CspProc

/-! ## Clocks -/

/-- The clock of a runtime, as `proc_runtime_block` uses it: the deadline of a
block that starts, the tests of the loop and behind it, and the wait. -/
structure Clock (P T : Type) where
  deadline : P → T × P
  before : T → P → Bool × P
  reached : T → P → Bool × P
  sleep : P → P

/-- `struct timespec`. -/
structure Timespec where
  sec : Int
  nsec : Int
deriving DecidableEq, Repr

def Timespec.lt (a b : Timespec) : Prop := a.sec < b.sec ∨ a.sec = b.sec ∧ a.nsec < b.nsec

instance (a b : Timespec) : Decidable (a.lt b) :=
  inferInstanceAs (Decidable (a.sec < b.sec ∨ a.sec = b.sec ∧ a.nsec < b.nsec))

variable {P F T : Type}

/-- The clock of the POSIX runtime. `gettime` is `clock_gettime`, which may
fail; the first reading is not checked, and `stale` is what then stands in
`timeout`. -/
def Clock.posix (gettime : P → Option Timespec × P) (nanosleep : P → P) (stale : Timespec)
    (maxProcBlockTimeoutMs : Nat) : Clock P Timespec where
  deadline s :=
    let (now, s) := gettime s
    let timeout := now.getD stale
    (⟨timeout.sec + (maxProcBlockTimeoutMs / 1000 : Nat),
      timeout.nsec + (maxProcBlockTimeoutMs % 1000 * 1000000 : Nat)⟩, s)
  before timeout s :=
    let (now, s) := gettime s
    (now.any fun now => now.lt timeout, s)
  reached timeout s :=
    let (now, s) := gettime s
    (now.any fun now => ¬ now.lt timeout, s)
  sleep := nanosleep

/-- The clock of the FreeRTOS runtime: a 32-bit tick counter. -/
def Clock.freertos (xTaskGetTickCount : P → UInt32 × P) (vTaskDelay : P → P)
    (maxProcBlockTimeoutTicks : UInt32) : Clock P UInt32 where
  deadline s :=
    let (now, s) := xTaskGetTickCount s
    (now + maxProcBlockTimeoutTicks, s)
  before timeoutTick s :=
    let (now, s) := xTaskGetTickCount s
    (now < timeoutTick, s)
  reached timeoutTick s :=
    let (now, s) := xTaskGetTickCount s
    (timeoutTick ≤ now, s)
  sleep := vTaskDelay

/-! ## Handlers -/

/-- A runtime: what its handlers run on, its clock, and for how many polls a
block is followed. -/
structure RuntimeHost (P F T : Type) extends Host P F where
  clock : Clock P T
  maxPolls : Nat

/-- The `return`s of `proc_runtime_ifelse`; an operator outside of the
enumeration leaves its `switch`. -/
def conditionOf : Option Bool → Condition
  | some true => .holds
  | some false => .fails
  | none => .err

namespace Host

variable (h : Host P F)

/-- The comparison of `proc_runtime_ifelse`. Strings are read behind the
operands, from the memory of the two parameters. -/
def compareOperands (op : UInt32) (paramA paramB : Param) (a b : Operand F) :
    Traced Access P Condition :=
  let op := ComparisonOp.ofCode op
  match a.type with
  | .uint =>
      if b.type ≠ .uint then return .errType
      else return conditionOf (op.map fun op => op.holds (compare (a.u64 h.fl) (b.u64 h.fl)))
  | .int =>
      if b.type ≠ .int then return .errType
      else return conditionOf (op.map fun op => op.holds (compare (a.i64 h.fl) (b.i64 h.fl)))
  | .float =>
      if b.type ≠ .float then return .errType
      else return conditionOf (op.map fun op => op.holdsFloat h.fl (a.d h.fl) (b.d h.fl))
  | .string =>
      if h.lib.typeCode paramB.type ≠ OperandType.string.code then return .errType
      else do
        let valueA ← Traced.act (.get paramA) fun s => (h.lib.text s paramA.addr, s)
        let valueB ← Traced.act (.get paramB) fun s => (h.lib.text s paramB.addr, s)
        return conditionOf (op.map fun op => op.holds (strcmp valueA valueB))

/-- `proc_runtime_ifelse`. -/
def procRuntimeIfelse (ins : ProcInstruction) : Traced Access P Condition :=
  match ins.instruction with
  | .ifelse a op b => do
      let paramA ← h.procFetchParam a ins.node
      let paramB ← h.procFetchParam b ins.node
      match paramA with
      | none => return .err
      | some paramA =>
          match paramB with
          | none => return .err
          | some paramB =>
              if paramA.type = .invalid ∨ paramB.type = .data then
                return .err
              else
                match ← h.fetchOperandParamPair a ins.node with
                | none => return .err
                | some (operandA, _) =>
                    match ← h.fetchOperandParamPair b ins.node with
                    | none => return .err
                    | some (operandB, _) => h.compareOperands op paramA paramB operandA operandB
  | _ => return .err

/-- `proc_runtime_set`. -/
def procRuntimeSet (ins : ProcInstruction) : Traced Access P Int :=
  match ins.instruction with
  | .set param value => h.procSetParam param none (some value) ins.node
  | _ => return -1

/-- `fetch_node` of `proc_runtime_unop`. -/
def fetchNode (op : UInt32) (node : UInt16) : UInt16 :=
  if UnaryOp.ofCode op = some .rmt then 0 else node

/-- `result_node` of `proc_runtime_unop`. -/
def resultNode (op : UInt32) (node : UInt16) : UInt16 :=
  if UnaryOp.ofCode op = some .rmt then node else 0

/-- `proc_runtime_unop`. -/
def procRuntimeUnop (ins : ProcInstruction) : Traced Access P Int :=
  match ins.instruction with
  | .unop param op result => do
      match ← h.fetchOperandParamPair param (fetchNode op ins.node) with
      | none => return -1
      | some (operand, _) =>
          match unopOperand h.fl h.lib.typeCode op operand with
          | none => return -1
          | some operand => h.procSetParam result (some operand) none (resultNode op ins.node)
  | _ => return -1

/-- The part of `proc_runtime_binop` before its call of `proc_set_param`: the
operand that it is called with. The second operand is fetched only once the
first one is. -/
def binopResult (a : CStr) (op : UInt32) (b : CStr) (node : UInt16) :
    Traced Access P (Option (Operand F)) := do
  match ← h.fetchOperandParamPair a node with
  | none => return none
  | some (operandA, _) =>
      match ← h.fetchOperandParamPair b node with
      | none => return none
      | some (operandB, _) => return binopOperand h.fl op operandA operandB

/-- `proc_runtime_binop`. -/
def procRuntimeBinop (ins : ProcInstruction) : Traced Access P Int :=
  match ins.instruction with
  | .binop a op b result => do
      match ← h.binopResult a op b ins.node with
      | none => return -1
      | some operand => h.procSetParam result (some operand) none ins.node
  | _ => return -1

end Host

namespace RuntimeHost

variable (h : RuntimeHost P F T)

/-- The loop of `proc_runtime_block`, for a number of polls: the code with which
the function returns out of it, if it does. -/
def blockLoop (poll : Traced Access P Condition) (deadline : T) :
    Nat → Traced Access P (Option Int)
  | 0 => return some (-1)
  | polls + 1 => do
      let before ← Traced.tick (h.clock.before deadline)
      if before then
        match ← poll with
        | .err => return some (-1)
        | .holds => return none
        | .fails | .errType =>
            Traced.tick fun s => ((), h.clock.sleep s)
            blockLoop poll deadline polls
      else return none

/-- `proc_runtime_block`. -/
def procRuntimeBlock (ins : ProcInstruction) : Traced Access P Int :=
  match ins.instruction with
  | .block a op b => do
      let deadline ← Traced.tick h.clock.deadline
      match ← h.blockLoop (h.procRuntimeIfelse ⟨ins.node, .ifelse a op b⟩) deadline h.maxPolls with
      | some ret => return ret
      | none =>
          let reached ← Traced.tick (h.clock.reached deadline)
          return if reached then -1 else 0
  | _ => return -1

end RuntimeHost

/-! ## Steps -/

/-- The instruction that the next step executes. -/
def Interp.nextInstruction {S : Type} (m : Interp S) (st : RunState S) : Option ProcInstruction :=
  match st.control with
  | .exec frame _ =>
      if frame.flag = .isFalse then none else (m.code frame.proc).instructions[frame.i]?
  | .returning .. | .fault => none

/-- The state of the parameters that a handler leaves. -/
def Handlers.after {S : Type} (h : Handlers S) (ins : ProcInstruction) (s : S) : S :=
  match ins.instruction with
  | .block .. => (h.block ins s).2
  | .ifelse .. => (h.ifelse ins s).2
  | .set .. => (h.set ins s).2
  | .unop .. => (h.unop ins s).2
  | .binop .. => (h.binop ins s).2
  | .call _ | .noop | .unknown .. => s

/-- What executing an instruction adds to the trace. -/
def ProcInstruction.traced (ins : ProcInstruction) : List ProcInstruction :=
  if ins.instruction.isNoop then [] else [ins]

/-- The parameters and the trace after an instruction, or after none. -/
def Handlers.progress {S : Type} (h : Handlers S) (e : Effects S) :
    Option ProcInstruction → S × List ProcInstruction
  | none => (e.params, e.trace)
  | some ins => (h.after ins e.params, e.trace ++ ins.traced)

namespace Interp

variable {S : Type} (m : Interp S)

/-- The part of the effects that the instructions make. -/
def progress (st : RunState S) : S × List ProcInstruction := (st.effects.params, st.effects.trace)

theorem endPass_progress (ret : Int) (frame : Frame) (callers : List Frame) (st : RunState S) :
    progress (endPass ret frame callers st) = progress st := by
  unfold endPass
  split
  · rfl
  · rfl

theorem procRuntimeCall_progress (procedureSlot : UInt8) (frame : Frame) (callers : List Frame)
    (st : RunState S) :
    progress (m.procRuntimeCall procedureSlot frame callers st) = progress st := by
  unfold procRuntimeCall
  dsimp only
  split
  · exact endPass_progress _ _ _ _
  · split
    · split
      · rfl
      · unfold enter
        split
        · rfl
        · rfl
    · rfl

theorem execInstruction_progress (ins : ProcInstruction) (frame : Frame) (callers : List Frame)
    (st : RunState S) :
    progress (m.execInstruction ins frame callers st) =
      m.handlers.progress st.effects (some ins) := by
  cases hins : ins.instruction with
  | call slot =>
      rw [m.execInstruction_call hins, procRuntimeCall_progress]
      simp [progress, Handlers.progress, Handlers.after, ProcInstruction.traced, hins,
        Instruction.isNoop, Effects.log]
  | noop =>
      rw [m.execInstruction_handler (by simp [hins, Instruction.callSlot]), endPass_progress]
      simp [progress, Handlers.progress, Handlers.after, ProcInstruction.traced, hins,
        Instruction.isNoop, execHandler]
  | _ =>
      rw [m.execInstruction_handler (by simp [hins, Instruction.callSlot]), endPass_progress]
      simp [progress, Handlers.progress, Handlers.after, ProcInstruction.traced, hins,
        Instruction.isNoop, execHandler, Effects.log]

/-- Only executing an instruction touches the parameters and the trace. -/
theorem step_progress (st : RunState S) :
    progress (m.step st) = m.handlers.progress st.effects (m.nextInstruction st) := by
  rcases st with ⟨control, depth, effects⟩
  unfold nextInstruction
  cases control with
  | fault => rfl
  | returning ret callers =>
      cases callers with
      | nil => rfl
      | cons caller callers => exact endPass_progress _ _ _ _
  | exec frame callers =>
      cases hins : (m.code frame.proc).instructions[frame.i]? with
      | none =>
          rw [m.step_end hins]
          simp [hins, progress, Handlers.progress]
      | some ins =>
          by_cases hflag : frame.flag = .isFalse
          · rw [m.step_skip hins hflag]
            simp [hflag, progress, Handlers.progress]
          · rw [m.step_instruction hins hflag, execInstruction_progress]
            simp [hins, hflag]

end Interp

/-! ## Sessions -/

/-- The state of libparam, and the accesses of every instruction so far. -/
structure Session (P : Type) where
  params : P
  log : List (ProcInstruction × List Access)

/-- A handler on a session. -/
def Session.run {α : Type} (handler : ProcInstruction → Traced Access P α) (ins : ProcInstruction)
    (s : Session P) : α × Session P :=
  let o := (handler ins).run s.params
  (o.value, ⟨o.state, s.log ++ [(ins, o.accesses)]⟩)

/-- The handlers of the interpreter. -/
def RuntimeHost.handlers (h : RuntimeHost P F T) : Handlers (Session P) where
  block := Session.run h.procRuntimeBlock
  ifelse := Session.run h.procRuntimeIfelse
  set := Session.run h.procRuntimeSet
  unop := Session.run h.procRuntimeUnop
  binop := Session.run h.procRuntimeBinop

/-- Neither a call, nor `noop`, nor an unknown instruction. -/
def ProcInstruction.hasHandler (ins : ProcInstruction) : Bool :=
  match ins.instruction with
  | .block .. | .ifelse .. | .set .. | .unop .. | .binop .. => true
  | .call _ | .noop | .unknown .. => false

namespace RuntimeHost

variable (h : RuntimeHost P F T)

/-- The accesses of an instruction that is executed. -/
def accesses (ins : ProcInstruction) (s : P) : List Access :=
  match ins.instruction with
  | .block .. => ((h.procRuntimeBlock ins).run s).accesses
  | .ifelse .. => ((h.procRuntimeIfelse ins).run s).accesses
  | .set .. => ((h.procRuntimeSet ins).run s).accesses
  | .unop .. => ((h.procRuntimeUnop ins).run s).accesses
  | .binop .. => ((h.procRuntimeBinop ins).run s).accesses
  | .call _ | .noop | .unknown .. => []

/-- What an instruction adds to the log. -/
def entry (ins : ProcInstruction) (s : P) : List (ProcInstruction × List Access) :=
  if ins.hasHandler then [(ins, h.accesses ins s)] else []

theorem after_log (ins : ProcInstruction) (s : Session P) :
    (h.handlers.after ins s).log = s.log ++ h.entry ins s.params := by
  unfold Handlers.after entry accesses ProcInstruction.hasHandler
  cases ins.instruction with
  | call => exact (List.append_nil _).symm
  | noop => exact (List.append_nil _).symm
  | unknown => exact (List.append_nil _).symm
  | _ => rfl

/-- The procedures and the analyses, as they are in memory. -/
abbrev Memory : Type := (ProcRef → Proc) × (Nat → Analysis)

variable (maxDepth : Nat) (reuseFrames : Bool)

/-- The interpreter, with the memory as it is when it takes a step. -/
def interp (memory : Memory) : Interp (Session P) :=
  ⟨memory.1, memory.2, h.handlers, maxDepth, reuseFrames⟩

/-- The state in which a run begins. -/
def start (memory : Memory) (params : P) : RunState (Session P) :=
  (h.interp maxDepth reuseFrames memory).start ⟨params, []⟩

/-- One step. -/
def next (st : RunState (Session P)) (memory : Memory) : Option (RunState (Session P)) :=
  some ((h.interp maxDepth reuseFrames memory).step st)

variable {h maxDepth reuseFrames}

theorem start_progress (memory : Memory) (params : P) :
    Interp.progress (h.start maxDepth reuseFrames memory params) = (⟨params, []⟩, []) := by
  unfold start Interp.start Interp.enter
  split
  · rfl
  · rfl

theorem next_progress {st st' : RunState (Session P)} {memory : Memory}
    (hstep : h.next maxDepth reuseFrames st memory = some st') :
    Interp.progress st' = h.handlers.progress st.effects
      ((h.interp maxDepth reuseFrames memory).nextInstruction st) := by
  obtain rfl := Option.some.inj hstep
  exact (h.interp maxDepth reuseFrames memory).step_progress st

/-- In every run the log has exactly one entry for each instruction with a
handler that has been executed, in their order. -/
theorem log_trace {ok : RunState (Session P) → Memory → Prop} {memory : Memory} {params : P}
    {memories : List Memory} {st : RunState (Session P)}
    (hrun : Reaches (h.next maxDepth reuseFrames) ok (h.start maxDepth reuseFrames memory params)
      memories st) :
    st.effects.params.log.map Prod.fst = st.effects.trace.filter ProcInstruction.hasHandler := by
  refine hrun.invariant (P := fun _ st => (Interp.progress st).1.log.map Prod.fst =
    (Interp.progress st).2.filter ProcInstruction.hasHandler) ?_ ?_
  · rw [start_progress]
    rfl
  · intro _ st memory st' ih _ hstep
    rw [next_progress hstep]
    cases (h.interp maxDepth reuseFrames memory).nextInstruction st with
    | none => exact ih
    | some ins =>
        show (h.handlers.after ins st.effects.params).log.map Prod.fst =
          (st.effects.trace ++ ins.traced).filter ProcInstruction.hasHandler
        have hentry : (h.entry ins st.effects.params.params).map Prod.fst =
            ins.traced.filter ProcInstruction.hasHandler := by
          unfold entry ProcInstruction.traced ProcInstruction.hasHandler
          cases hins : ins.instruction <;> simp [hins, Instruction.isNoop]
        rw [after_log, List.map_append, List.filter_append, hentry]
        exact congrArg (· ++ _) ih

end RuntimeHost

end CspProc
