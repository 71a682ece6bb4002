import CspProc.Footprint
import CspProc.Lib.System

/-! # Where results are written

What the DSL says of an instruction's nodes (`Access.Conforms`): the operands
are read on the instruction's node and the result is written on node 0, and
with `rmt` it is the other way round. `binop` does not keep to it: it writes its
result on the node of its operands.

* `conforms_of_keeps` — an instruction that is executed under the condition
  `RuntimeHost.Keeps` does keep to it;
* `binop_conforms_iff` — a `binop` on a foreign node keeps to it if and only if
  it does not come to its write;
* `writtenWhereSaid` — the accesses of a whole run.
-/

namespace CspProc

/-! ## What the DSL says -/

/-- The node on which an instruction's operands are. -/
def ProcInstruction.operandNode (ins : ProcInstruction) : Option UInt16 :=
  match ins.instruction with
  | .block .. | .ifelse .. | .binop .. => some ins.node
  | .unop _ op _ => some (if UnaryOp.ofCode op = some .rmt then 0 else ins.node)
  | .set .. | .call _ | .noop | .unknown .. => none

/-- The node on which an instruction's result is stored. -/
def ProcInstruction.resultNode (ins : ProcInstruction) : Option UInt16 :=
  match ins.instruction with
  | .set .. => some ins.node
  | .unop _ op _ => some (if UnaryOp.ofCode op = some .rmt then ins.node else 0)
  | .binop .. => some 0
  | .block .. | .ifelse .. | .call _ | .noop | .unknown .. => none

/-- `set` or `unop` with `rmt`. -/
def ProcInstruction.changesRemote (ins : ProcInstruction) : Bool :=
  match ins.instruction with
  | .set .. => true
  | .unop _ op _ => UnaryOp.ofCode op = some .rmt
  | _ => false

/-- What an instruction on a foreign node may access. It reads values on the
node of its operands only, and writes on the node of its result only. To find
a parameter it may ask its node for a list, and for the value of a parameter
there that is then copied; such a copy is not yet read. -/
def Access.Conforms (ins : ProcInstruction) : Access → Prop
  | .get param => ins.operandNode = some param.node
  | .set param => ins.resultNode = some 0 ∧ param.node = 0
  | .push param node => ins.resultNode = some node ∧ param.node = node ∧ node ≠ 0
  | .download node => node = ins.node
  | .pull param node => node = ins.node ∧ param.node = ins.node
  | .exhausted .. | .stray => True

instance (ins : ProcInstruction) : DecidablePred (Access.Conforms ins) := fun a =>
  match a with
  | .get param => inferInstanceAs (Decidable (ins.operandNode = some param.node))
  | .set param => inferInstanceAs (Decidable (ins.resultNode = some 0 ∧ param.node = 0))
  | .push param node =>
      inferInstanceAs (Decidable (ins.resultNode = some node ∧ param.node = node ∧ node ≠ 0))
  | .download node => inferInstanceAs (Decidable (node = ins.node))
  | .pull param node => inferInstanceAs (Decidable (node = ins.node ∧ param.node = ins.node))
  | .exhausted .. | .stray => inferInstanceAs (Decidable True)

variable {P F T : Type}

/-- A log in which every instruction on a foreign node keeps to what the DSL
says, and only `set` and `rmt` change a foreign node, which is the
instruction's. -/
structure WrittenWhereSaid (h : Host P F) (log : List (ProcInstruction × List Access)) : Prop where
  conforms : ∀ ins accesses, (ins, accesses) ∈ log → h.Foreign ins.node →
    ∀ a ∈ accesses, a.Conforms ins
  remote : ∀ ins accesses, (ins, accesses) ∈ log → ∀ param node, .push param node ∈ accesses →
    h.Foreign node → ins.changesRemote = true ∧ node = ins.node

namespace RuntimeHost

open Traced

variable (h : RuntimeHost P F T)

/-- The condition under which an instruction that is executed keeps to what the
DSL says: on a foreign node, no search is ended by its guard at a parameter of
another node, and a `binop` does not come to its write. -/
def Keeps (ins : ProcInstruction) (s : P) : Prop :=
  h.Foreign ins.node → (∀ a ∈ h.accesses ins s, a.Sure h.Owns) ∧ h.binopWrites ins s = false

instance (a : Access) : Decidable (a.Sure h.Owns) :=
  match a with
  | .exhausted param node => inferInstanceAs (Decidable (h.Owns node param))
  | .download _ | .pull .. | .get _ | .set _ | .push .. | .stray =>
      inferInstanceAs (Decidable True)

instance (ins : ProcInstruction) (s : P) : Decidable (h.Keeps ins s) :=
  inferInstanceAs (Decidable (_ → _ ∧ _))

variable {h}

/-! ## One instruction -/

/-- A parameter of node 0, or of the foreign node of an instruction. -/
theorem owner_eq {n node : UInt16} {param : Param} (hf : h.Foreign n)
    (hnode : node = 0 ∨ node = n) (ho : h.Owns node param) : param.node = node := by
  rcases hnode with rfl | rfl
  · exact ho.of_zero
  · exact ho.of_foreign hf

/-- A search conforms on the instruction's node, and on node 0, where it asks nobody. -/
theorem conforms_of_looks {ins : ProcInstruction} {node : UInt16} {a : Access}
    (hnode : node = 0 ∨ node = ins.node) (ha : a.Looks node) : a.Conforms ins := by
  have hins (h0 : node ≠ 0) : node = ins.node := hnode.resolve_left h0
  cases a with
  | download n => exact ha.1.trans (hins ha.2)
  | pull param n => exact ⟨ha.1.trans (hins ha.2.2), ha.2.1.trans (hins ha.2.2)⟩
  | get => exact ha.elim
  | set => exact ha.elim
  | push => exact ha.elim
  | exhausted => trivial
  | stray => trivial

/-- Reading conforms on the node of the operands. -/
theorem conforms_of_reads {ins : ProcInstruction} {node : UInt16} {a : Access}
    (hf : h.Foreign ins.node) (hnode : node = 0 ∨ node = ins.node)
    (hop : ins.operandNode = some node) (ha : a.Reads h.Owns node) : a.Conforms ins := by
  cases a with
  | get param =>
      have ho := owner_eq hf hnode ha
      exact hop.trans (congrArg some ho.symm)
  | _ => exact conforms_of_looks hnode ha

/-- Writing conforms on the node of the result. -/
theorem conforms_of_stores {ins : ProcInstruction} {node : UInt16} {a : Access}
    (hf : h.Foreign ins.node) (hnode : node = 0 ∨ node = ins.node)
    (hres : ins.resultNode = some node) (ha : a.Stores h.Owns node) : a.Conforms ins := by
  cases a with
  | set param =>
      have h0 : node = 0 := (owner_eq hf hnode ha.1).symm.trans ha.2
      exact ⟨h0 ▸ hres, ha.2⟩
  | push param n =>
      rcases ha with ⟨rfl, ho, h0⟩
      have hn := owner_eq hf hnode ho
      rw [hn] at h0
      exact ⟨hres, hn, h0⟩
  | _ => exact conforms_of_looks hnode ha

theorem conforms_of_keeps {ins : ProcInstruction} {s : P} (hk : h.Keeps ins s)
    (hf : h.Foreign ins.node) : ∀ a ∈ h.accesses ins s, a.Conforms ins := by
  rcases hk hf with ⟨hsure, hw⟩
  have htouch := touches_of_sure (fun _ _ => id) hsure
  intro a ha
  have hta := htouch a ha
  unfold Touches at hta
  cases hins : ins.instruction with
  | block =>
      rw [hins] at hta
      exact conforms_of_reads hf (.inr rfl) (by simp [ProcInstruction.operandNode, hins]) hta
  | ifelse =>
      rw [hins] at hta
      exact conforms_of_reads hf (.inr rfl) (by simp [ProcInstruction.operandNode, hins]) hta
  | set =>
      rw [hins] at hta
      exact conforms_of_stores hf (.inr rfl) (by simp [ProcInstruction.resultNode, hins]) hta
  | unop param op result =>
      rw [hins] at hta
      -- `rmt` reads here and writes there, the others read there and write here
      by_cases hop : UnaryOp.ofCode op = some .rmt
      · simp only [Host.fetchNode, Host.resultNode, if_pos hop] at hta
        rcases hta with hta | hta
        · exact conforms_of_reads hf (.inl rfl)
            (by simp [ProcInstruction.operandNode, hins, hop]) hta
        · exact conforms_of_stores hf (.inr rfl)
            (by simp [ProcInstruction.resultNode, hins, hop]) hta
      · simp only [Host.fetchNode, Host.resultNode, if_neg hop] at hta
        rcases hta with hta | hta
        · exact conforms_of_reads hf (.inr rfl)
            (by simp [ProcInstruction.operandNode, hins, hop]) hta
        · exact conforms_of_stores hf (.inl rfl)
            (by simp [ProcInstruction.resultNode, hins, hop]) hta
  | binop =>
      exact conforms_of_reads hf (.inr rfl) (by simp [ProcInstruction.operandNode, hins])
        (reads_of_sure (fun _ _ => id) hins hsure hw a ha)
  | call => simp [hins] at hta
  | noop => simp [hins] at hta
  | unknown => simp [hins] at hta

/-- Where `proc_set_param` gets as far as its write on a foreign node, it sends
the value there. -/
theorem push_of_writable {name : CStr} {operand : Operand F} {node : UInt16} {s : P}
    (hf : h.Foreign node)
    (hsure : ∀ a ∈ ((h.procSetParam name (some operand) none node).run s).accesses,
      a.Sure h.Owns)
    (hw : h.writable name (some operand) none node s = true) :
    ∃ param, .push param node ∈
      ((h.procSetParam name (some operand) none node).run s).accesses := by
  unfold Host.procSetParam at hsure ⊢
  rw [if_neg (by simp), bind_accesses] at hsure ⊢
  simp only [Host.writable] at hw
  have howns : ∀ node param, h.Owns node param → h.Owns node param := fun _ _ => id
  have hfetch := (Host.procFetchParam_within howns name node s)
    fun a ha => hsure a (List.mem_append_left _ ha)
  cases hv : ((h.procFetchParam name node).run s).value with
  | none => simp [hv] at hw
  | some param =>
      simp only [hv, Bool.and_eq_true, Bool.not_eq_true'] at hw
      rcases hw with ⟨hro, hbytes⟩
      rcases Option.isSome_iff_exists.mp hbytes with ⟨bytes, hbytes⟩
      have hnode : param.node ≠ 0 := by
        rw [(hfetch.2 param hv).of_foreign hf]
        exact hf.1
      refine ⟨param, List.mem_append_right _ ?_⟩
      simp [hro, hbytes, bind_accesses, look, Host.storeValue, hnode, act]

/-- A `binop` on a foreign node keeps to what the DSL says if and only if it does
not come to its write. -/
theorem binop_conforms_iff {ins : ProcInstruction} {s : P} {a b result : CStr} {op : UInt32}
    (hins : ins.instruction = .binop a op b result) (hf : h.Foreign ins.node)
    (hsure : ∀ a ∈ h.accesses ins s, a.Sure h.Owns) :
    (∀ a ∈ h.accesses ins s, a.Conforms ins) ↔ h.binopWrites ins s = false := by
  constructor
  · intro hconf
    by_contra hw
    rw [Bool.not_eq_false] at hw
    have hpush : ∃ param, .push param ins.node ∈ h.accesses ins s := by
      simp only [accesses, hins, Host.procRuntimeBinop, bind_accesses] at hsure ⊢
      simp only [Host.binopWrites, hins] at hw
      cases hv : ((h.binopResult a op b ins.node).run s).value with
      | none => simp [hv] at hw
      | some operand =>
          simp only [hv] at hw hsure ⊢
          obtain ⟨param, hparam⟩ := push_of_writable hf
            (fun a ha => hsure a (List.mem_append_right _ ha)) hw
          exact ⟨param, List.mem_append_right _ hparam⟩
    rcases hpush with ⟨param, hparam⟩
    have hres : ins.resultNode = some ins.node := (hconf _ hparam).1
    have hzero : ins.resultNode = some 0 := by simp [ProcInstruction.resultNode, hins]
    exact hf.1 (Option.some.inj (hres.symm.trans hzero))
  · intro hw
    exact conforms_of_keeps (fun _ => ⟨hsure, hw⟩) hf

/-- A value is sent to the instruction's node, or to node 0. -/
theorem push_node {ins : ProcInstruction} {s : P} {param : Param} {node : UInt16}
    (hpush : .push param node ∈ h.accesses ins s) : node = ins.node ∨ node = 0 := by
  have hsure : ∀ a ∈ h.accesses ins s, a.Sure fun _ _ => True := by
    intro a _
    cases a <;> trivial
  have htouch := touches_of_sure (fun _ _ _ => trivial) hsure _ hpush
  unfold Touches at htouch
  cases hins : ins.instruction with
  | block => simp [hins, Access.Reads, Access.Looks] at htouch
  | ifelse => simp [hins, Access.Reads, Access.Looks] at htouch
  | set =>
      rw [hins] at htouch
      exact .inl htouch.1
  | unop param op result =>
      rw [hins] at htouch
      have hnode := (htouch.resolve_left id).1
      unfold Host.resultNode at hnode
      split at hnode
      · exact .inl hnode
      · exact .inr hnode
  | binop =>
      rw [hins] at htouch
      exact .inl (htouch.resolve_left id).1
  | call => simp [hins] at htouch
  | noop => simp [hins] at htouch
  | unknown => simp [hins] at htouch

/-- A result on another node than 0 is that of `set` or `rmt`. -/
theorem changesRemote_of_resultNode {ins : ProcInstruction} {node : UInt16}
    (hres : ins.resultNode = some node) (h0 : node ≠ 0) : ins.changesRemote = true := by
  unfold ProcInstruction.resultNode at hres
  unfold ProcInstruction.changesRemote
  cases hins : ins.instruction with
  | set => rfl
  | unop param op result =>
      by_cases hop : UnaryOp.ofCode op = some .rmt
      · simp [hop]
      · simp only [hins, if_neg hop, Option.some.injEq] at hres
        exact absurd hres.symm h0
  | binop =>
      simp only [hins, Option.some.injEq] at hres
      exact absurd hres.symm h0
  | _ => simp [hins] at hres

/-- An instruction that is executed under the condition can be added to a log. -/
theorem writtenWhereSaid_snoc {log : List (ProcInstruction × List Access)}
    (hlog : WrittenWhereSaid h.toHost log) {ins : ProcInstruction} {s : P} (hk : h.Keeps ins s) :
    WrittenWhereSaid h.toHost (log ++ h.entry ins s) := by
  have hentry {ins' : ProcInstruction} {accesses : List Access}
      (hmem : (ins', accesses) ∈ h.entry ins s) : ins' = ins ∧ accesses = h.accesses ins s := by
    unfold entry at hmem
    split at hmem
    · simpa using hmem
    · cases hmem
  constructor
  · intro ins' accesses hmem hf a ha
    rcases List.mem_append.mp hmem with hmem | hmem
    · exact hlog.conforms ins' accesses hmem hf a ha
    · rcases hentry hmem with ⟨rfl, rfl⟩
      exact conforms_of_keeps hk hf a ha
  · intro ins' accesses hmem param node hpush hf
    rcases List.mem_append.mp hmem with hmem | hmem
    · exact hlog.remote ins' accesses hmem param node hpush hf
    · rcases hentry hmem with ⟨rfl, rfl⟩
      obtain rfl := (push_node hpush).resolve_right hf.1
      rcases conforms_of_keeps hk hf _ hpush with ⟨hres, -, h0⟩
      exact ⟨changesRemote_of_resultNode hres h0, rfl⟩

/-! ## Runs -/

variable (h) (maxDepth : Nat) (reuseFrames : Bool)

/-- If the step executes an instruction, this one keeps to what the DSL says. -/
def StepKeeps (st : RunState (Session P)) (memory : Memory) : Prop :=
  ∀ ins ∈ (h.interp maxDepth reuseFrames memory).nextInstruction st,
    h.Keeps ins st.effects.params.params

instance (st : RunState (Session P)) (memory : Memory) :
    Decidable (h.StepKeeps maxDepth reuseFrames st memory) :=
  Option.decidableForallMem _

variable {h maxDepth reuseFrames}

theorem writtenWhereSaid_next {st st' : RunState (Session P)} {memory : Memory}
    (hlog : WrittenWhereSaid h.toHost (Interp.progress st).1.log)
    (hk : h.StepKeeps maxDepth reuseFrames st memory)
    (hstep : h.next maxDepth reuseFrames st memory = some st') :
    WrittenWhereSaid h.toHost (Interp.progress st').1.log := by
  rw [next_progress hstep]
  cases hins : (h.interp maxDepth reuseFrames memory).nextInstruction st with
  | none => exact hlog
  | some ins =>
      show WrittenWhereSaid h.toHost (h.handlers.after ins st.effects.params).log
      rw [after_log]
      exact writtenWhereSaid_snoc hlog (hk ins hins)

/-- Results are written where the DSL says: in every run, from any parameters and
with any procedures, in which no search on a foreign node's behalf is ended by its
guard at a parameter of another node, and no `binop` on a foreign node comes to
its write. -/
theorem writtenWhereSaid {memory : Memory} {params : P} {memories : List Memory}
    {st : RunState (Session P)}
    (hrun : Reaches (h.next maxDepth reuseFrames) (h.StepKeeps maxDepth reuseFrames)
      (h.start maxDepth reuseFrames memory params) memories st) :
    WrittenWhereSaid h.toHost st.effects.params.log := by
  refine hrun.invariant
    (P := fun _ st => WrittenWhereSaid h.toHost (Interp.progress st).1.log) ?_ ?_
  · rw [start_progress]
    exact ⟨by simp, by simp⟩
  · intro _ st memory st' hlog hk hstep
    exact writtenWhereSaid_next hlog hk hstep

end RuntimeHost

/-! ## A node with parameters -/

/-- A libparam whose parameters, here and on other nodes, hold a number each,
and whose network answers every request. -/
def Libparam.cells : Libparam (List (Param × UInt64)) where
  params s := s.map Prod.fst
  strmatch name pattern := name == pattern
  paramListDownload _ s := (0, s)
  paramPullSingle _ _ _ s := (0, s)
  paramPushSingle param _ bytes _ s :=
    (0, s.map fun c => if c.1 = param then (param, .ofNat (leValue (bytes.take 8))) else c)
  paramGet param _ s := ((s.find? fun c => c.1 = param).map Prod.snd).getD 0
  paramSet param _ bytes s :=
    s.map fun c => if c.1 = param then (param, .ofNat (leValue (bytes.take 8))) else c
  paramStrToValue _ str := (scanInt str.bytes).map fun k => leBytes 8 k.toNat
  clearTimestamp _ s := s
  text _ _ := CStr.nil
  typeCode type := type.ctorIdx

/-- Doubles as Lean has them. -/
def FloatOps.ieee : FloatOps Float where
  add := (· + ·)
  sub := (· - ·)
  mul := (· * ·)
  div := (· / ·)
  neg := (- ·)
  zero := 0
  one := 1
  epsilon := 1e-6
  eq a b := a == b
  lt a b := decide (a < b)
  le a b := decide (a ≤ b)
  bits := Float.toBits
  ofBits := Float.ofBits
  single x := x.toFloat32.toBits
  ofSingle b := (Float32.ofBits b).toFloat

/-- A node with the address 1. -/
def hostOne : RuntimeHost (List (Param × UInt64)) Float Timespec where
  lib := .cells
  fl := .ieee
  ifaces := [1]
  overlong k := cInt k
  ackOnPush := true
  clock := .posix (fun s => (some ⟨0, 0⟩, s)) id ⟨0, 0⟩ 5000000
  maxPolls := 1

/-- A name of one letter. -/
def letter (c : UInt8) (h : [c].contains 0 = false) : CStr := .ofBytes [c] h

/-- A byte `x`, `y` or `z` of a node. -/
def byteParam (c : UInt8) (h : [c].contains 0 = false) (node : UInt16) : Param :=
  ⟨letter c h, node, .uint8, false, 1, 0⟩

/-- `x` and `z` on node 5, `y` and `z` here. -/
def fewParams : List (Param × UInt64) :=
  [(byteParam 120 rfl 5, 3), (byteParam 122 rfl 5, 0), (byteParam 121 rfl 0, 0),
    (byteParam 122 rfl 0, 0)]

/-- `proc set x 7 5`, `proc unop x ++ y 5`, `proc unop y rmt z 5` and
`proc ifelse x < z 5`. -/
def fetchingProc : Proc :=
  ⟨[⟨5, .set (letter 120 rfl) (letter 55 rfl)⟩, ⟨5, .unop (letter 120 rfl) 0 (letter 121 rfl)⟩,
    ⟨5, .unop (letter 121 rfl) 5 (letter 122 rfl)⟩,
    ⟨5, .ifelse (letter 120 rfl) 2 (letter 122 rfl)⟩], by decide⟩

/-- `proc binop x + x z 5`. -/
def addingProc : Proc :=
  ⟨[⟨5, .binop (letter 120 rfl) 0 (letter 120 rfl) (letter 122 rfl)⟩], by decide⟩

/-- A memory with one procedure, which calls no other. -/
def onlyProc (p : Proc) : RuntimeHost.Memory :=
  (fun _ => p, fun _ => ⟨.root, [], [], []⟩)

/-- The first steps of its run, and where they lead. -/
theorem fetchingProc_taken :
    ((List.replicate 5 (onlyProc fetchingProc)).foldlM
      (guarded (hostOne.next 1000 true) (hostOne.StepKeeps 1000 true))
      (hostOne.start 1000 true (onlyProc fetchingProc) fewParams)).isSome = true := by
  decide +kernel

theorem writtenWhereSaid_fetchingProc :
    ∃ st, Reaches (hostOne.next 1000 true) (hostOne.StepKeeps 1000 true)
        (hostOne.start 1000 true (onlyProc fetchingProc) fewParams)
        (List.replicate 5 (onlyProc fetchingProc)) st ∧
      WrittenWhereSaid hostOne.toHost st.effects.params.log := by
  have hreaches := Reaches.of_foldlM (Option.some_get fetchingProc_taken).symm
  exact ⟨_, hreaches, RuntimeHost.writtenWhereSaid hreaches⟩

theorem addingProc_taken :
    ([onlyProc addingProc].foldlM
      (guarded (hostOne.next 1000 true) fun _ _ => True)
      (hostOne.start 1000 true (onlyProc addingProc) fewParams)).isSome = true := by
  decide +kernel

/-- The sum is sent to node 5, although `z` is a parameter here as well. -/
theorem addingProc_writes_remote :
    ∃ st, Reaches (hostOne.next 1000 true) (fun _ _ => True)
        (hostOne.start 1000 true (onlyProc addingProc) fewParams) [onlyProc addingProc] st ∧
      hostOne.Foreign 5 ∧
      (∃ accesses, (⟨5, .binop (letter 120 rfl) 0 (letter 120 rfl) (letter 122 rfl)⟩, accesses) ∈
        st.effects.params.log ∧ .push (byteParam 122 rfl 5) 5 ∈ accesses) ∧
      ¬ WrittenWhereSaid hostOne.toHost st.effects.params.log := by
  have hpush : ∃ accesses ∈ (Option.get _ addingProc_taken).effects.params.log,
      accesses.1 = ⟨5, .binop (letter 120 rfl) 0 (letter 120 rfl) (letter 122 rfl)⟩ ∧
        .push (byteParam 122 rfl 5) 5 ∈ accesses.2 := by
    decide +kernel
  refine ⟨Option.get _ addingProc_taken, .of_foldlM (Option.some_get addingProc_taken).symm,
    by decide, ?_, ?_⟩
  · rcases hpush with ⟨⟨ins, accesses⟩, hmem, rfl, hpush⟩
    exact ⟨accesses, hmem, hpush⟩
  · intro hsaid
    rcases hpush with ⟨⟨ins, accesses⟩, hmem, rfl, hpush⟩
    rcases hsaid.remote _ _ hmem _ _ hpush (by decide) with ⟨hchanges, -⟩
    cases hchanges

end CspProc
